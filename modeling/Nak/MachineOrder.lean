import Nak.MachineAgreement

/-! `enqueue` iterates hash maps. Its result does not depend on their order unless one
entry is contradicted by a finished pid while another names a pid the machine does not
know: then the entry that comes first decides between the early return and the assert. -/
namespace Nak.Machine
open Library
variable {Id Cmd State : Type} [DecidableEq Id] {machine : Machine Id Cmd State}

def SameOutcome {α : Type} (first second : Outcome α) : Prop :=
  (∃ value, first = .ok value ∧ second = .ok value) ∨ ¬first.Returns ∧ ¬second.Returns

/-- Any two orders in which the map can be iterated give the same outcome. -/
def OrderIrrelevant (machine : Machine Id Cmd State) (newPid : Id) (cmd : Cmd)
    (blockFor : FiniteMap Id Condition) : Prop :=
  ∀ first second : OrderedMap Id Condition, first.toFinmap = blockFor → second.toFinmap = blockFor →
    SameOutcome (machine.enqueue newPid cmd first) (machine.enqueue newPid cmd second)

/-- If an entry is contradicted by a finished pid, then all entries name known pids. -/
def Decisive (machine : Machine Id Cmd State) (blockFor : FiniteMap Id Condition) : Prop :=
  (∃ pid cond, blockFor.lookup pid = some cond ∧ machine.Refuses ⟨pid,cond⟩) →
    ∀ pid, pid ∈ blockFor → machine.Known pid

section Orders
variable {newPid : Id} {cmd : Cmd} {blockFor : FiniteMap Id Condition} {first second : OrderedMap Id Condition}

private theorem order_lookup (order : first.toFinmap = blockFor) (pid : Id) :
    first.lookup pid = blockFor.lookup pid := by
  rw [← order,Finmap.lookup_toFinmap]

private theorem order_entry (order : first.toFinmap = blockFor) (entry : Σ _ : Id, Condition) :
    entry ∈ first.entries ↔ blockFor.lookup entry.1 = some entry.2 := by
  rw [← order_lookup order,← AList.mem_lookup_iff]
  rfl

private theorem order_starting {pid : Id} {cond : Condition} (listed : blockFor.lookup pid = some cond) :
    ∃ (order : OrderedMap Id Condition) (rest : List (Σ _ : Id, Condition)),
      order.toFinmap = blockFor ∧ order.entries = ⟨pid,cond⟩ :: rest := by
  induction blockFor using Finmap.induction_on with
  | _ given =>
    obtain ⟨before,after,shape⟩ := List.append_of_mem ((order_entry rfl ⟨pid,cond⟩).mpr listed)
    have moved : given.entries.Perm (⟨pid,cond⟩ :: (before ++ after)) := by
      rw [shape]
      exact List.perm_middle
    refine ⟨⟨⟨pid,cond⟩ :: (before ++ after),(List.perm_nodupKeys moved).mp given.nodupKeys⟩,before ++ after,?_,rfl⟩
    exact AList.toFinmap_eq.mpr moved.symm

theorem Enqueued.order {tasks more : List (Task Id Cmd)} {next final : Machine Id Cmd State}
    (one : Enqueued machine newPid cmd first tasks next) (two : Enqueued machine newPid cmd second more final)
    (same : ∀ pid, first.lookup pid = second.lookup pid)
    (passed : ∀ entry ∈ first.entries, machine.Passes entry)
    (passed' : ∀ entry ∈ second.entries, machine.Passes entry) : tasks = more ∧ next = final := by
  have residual (pid : Id) : machine.residual first pid = machine.residual second pid := by
    rw [Machine.residual,Machine.residual,same]
  cases one with
  | refused before entry after shape _ refuses =>
    exact absurd (passed entry (by simp [shape])) (refuses_not_passes refuses)
  | ready _ all =>
    cases two with
    | refused before entry after shape _ refuses =>
      exact absurd (passed' entry (by simp [shape])) (refuses_not_passes refuses)
    | ready => exact ⟨rfl,rfl⟩
    | blocked _ _ some =>
      obtain ⟨pid,left⟩ := some
      exact absurd ((residual pid).symm.trans (all pid)) left
  | blocked _ _ some after =>
    cases two with
    | refused before entry after shape _ refuses =>
      exact absurd (passed' entry (by simp [shape])) (refuses_not_passes refuses)
    | ready _ all =>
      obtain ⟨pid,left⟩ := some
      exact absurd ((residual pid).trans (all pid)) left
    | blocked _ _ _ after' =>
      obtain ⟨conditions,left,inserted⟩ := after.waitingOn
      obtain ⟨conditions',left',inserted'⟩ := after'.waitingOn
      have equal : conditions = conditions' :=
        Finmap.ext_lookup fun pid => (left pid).trans ((residual pid).trans (left' pid).symm)
      refine ⟨rfl,Machine.ext ?_ ?_ ?_ ?_ ?_⟩
      · rw [after.finished,after'.finished]
      · rw [after.toRun,after'.toRun]
      · rw [after.running,after'.running]
      · refine Finmap.ext_lookup fun pid => ?_
        rw [after.checkOnCompleted,after'.checkOnCompleted,residual]
      · rw [inserted,inserted',equal]

/-- Once every entry names a known pid, the scan comes to the same end in every order. -/
private theorem known_order (fresh : ¬machine.Known newPid) (order : first.toFinmap = blockFor)
    (order' : second.toFinmap = blockFor) (known : ∀ pid, pid ∈ blockFor → machine.Known pid) :
    SameOutcome (machine.enqueue newPid cmd first) (machine.enqueue newPid cmd second) := by
  have ends {order : OrderedMap Id Condition} (same : order.toFinmap = blockFor) : machine.Scans order :=
    scans_of_known machine order fun entry member =>
      known entry.1 (FiniteMap.mem_of_lookup ((order_entry same entry).mp member))
  by_cases refused : ∃ entry : Σ _ : Id, Condition, blockFor.lookup entry.1 = some entry.2 ∧ machine.Refuses entry
  · obtain ⟨entry,listed,refuses⟩ := refused
    have stops {order : OrderedMap Id Condition} (same : order.toFinmap = blockFor) :
        machine.enqueue newPid cmd order = .ok ([.conditionFailed newPid cmd],machine) := by
      refine enqueue_refused fresh ((ends same).resolve_left fun passed => ?_)
      exact refuses_not_passes refuses (passed entry ((order_entry same entry).mpr listed))
    exact Or.inl ⟨_,stops order,stops order'⟩
  · have passes {order : OrderedMap Id Condition} (same : order.toFinmap = blockFor) :
        ∀ entry ∈ order.entries, machine.Passes entry := by
      refine (ends same).resolve_right fun stops => ?_
      obtain ⟨before,entry,after,shape,_,refuses⟩ := stops
      exact refused ⟨entry,(order_entry same entry).mp (by simp [shape]),refuses⟩
    obtain ⟨⟨tasks,next⟩,ok⟩ := (enqueue_returns_iff machine newPid cmd first).mpr ⟨fresh,ends order⟩
    obtain ⟨⟨more,final⟩,again⟩ := (enqueue_returns_iff machine newPid cmd second).mpr ⟨fresh,ends order'⟩
    obtain ⟨_,one⟩ := enqueue_cases _ _ _ _ _ _ ok
    obtain ⟨_,two⟩ := enqueue_cases _ _ _ _ _ _ again
    obtain ⟨rfl,rfl⟩ := one.order two
      (fun pid => (order_lookup order pid).trans (order_lookup order' pid).symm) (passes order) (passes order')
    exact Or.inl ⟨_,ok,again⟩

private theorem unknown_first {pid : Id} {cond : Condition} {rest : List (Σ _ : Id, Condition)}
    (unknown : ¬machine.Known pid) (shape : first.entries = ⟨pid,cond⟩ :: rest) :
    ¬(machine.enqueue newPid cmd first).Returns := by
  rw [enqueue_returns_iff]
  intro given
  rcases given.2 with passed | ⟨before,entry,after,split,passed,status,found,_⟩
  · exact unknown (passed ⟨pid,cond⟩ (by simp [shape])).1
  · cases before with
    | nil =>
      obtain ⟨rfl,_⟩ := List.cons.inj (split.symm.trans shape)
      exact unknown (Or.inl (FiniteMap.mem_of_lookup found))
    | cons earlier before =>
      obtain ⟨rfl,_⟩ := List.cons.inj (split.symm.trans shape)
      exact unknown (passed ⟨pid,cond⟩ (by simp)).1

/-- Without a contradicted entry an unknown pid trips the assert wherever it comes. -/
private theorem unknown_fails {pid : Id} (order : first.toFinmap = blockFor) (listed : pid ∈ blockFor)
    (unknown : ¬machine.Known pid)
    (agrees : ∀ pid cond, blockFor.lookup pid = some cond → ¬machine.Refuses ⟨pid,cond⟩) :
    ¬(machine.enqueue newPid cmd first).Returns := by
  rw [enqueue_returns_iff]
  intro given
  obtain ⟨cond,found⟩ := Finmap.mem_iff.mp listed
  rcases given.2 with passed | ⟨before,entry,after,shape,_,refuses⟩
  · exact unknown (passed ⟨pid,cond⟩ ((order_entry order _).mpr found)).1
  · exact agrees entry.1 entry.2 ((order_entry order entry).mp (by simp [shape])) refuses

theorem order_irrelevant_iff (newPid : Id) (cmd : Cmd) (blockFor : FiniteMap Id Condition)
    (fresh : ¬machine.Known newPid) :
    OrderIrrelevant machine newPid cmd blockFor ↔ Decisive machine blockFor := by
  constructor
  · intro irrelevant refused pid listed
    by_contra unknown
    obtain ⟨stopper,expected,stops,refuses⟩ := refused
    obtain ⟨cond,found⟩ := Finmap.mem_iff.mp listed
    obtain ⟨one,_,order,shape⟩ := order_starting stops
    obtain ⟨two,_,order',shape'⟩ := order_starting found
    have returns : machine.enqueue newPid cmd one = _ := enqueue_refused fresh ⟨[],_,_,shape,by simp,refuses⟩
    rcases irrelevant one two order order' with ⟨_,_,again⟩ | ⟨neither,_⟩
    · exact unknown_first unknown shape' ⟨_,again⟩
    · exact neither ⟨_,returns⟩
  · intro decisive first second order order'
    by_cases known : ∀ pid, pid ∈ blockFor → machine.Known pid
    · exact known_order fresh order order' known
    · simp only [not_forall] at known
      obtain ⟨pid,listed,unknown⟩ := known
      have agrees (other : Id) (cond : Condition) (found : blockFor.lookup other = some cond) :
          ¬machine.Refuses ⟨other,cond⟩ :=
        fun refuses => unknown (decisive ⟨other,cond,found,refuses⟩ pid listed)
      exact Or.inr ⟨unknown_fails order listed unknown agrees,unknown_fails order' listed unknown agrees⟩

end Orders

/-- One dependency has finished, the other is running. -/
theorem order_irrelevant_running : ∃ machine : Machine Nat String String, system.Reachable machine ∧
    OrderIrrelevant machine 2 "make"
      (AList.insert 0 none (AList.singleton 1 (some .success)) : OrderedMap Nat Condition).toFinmap := by
  have reachable := replay_reachable ([.enqueue 0 "configure" ∅,.startCompleted 0 .failure,.enqueue 1 "fetch" ∅,
    .start 1 "child"] : List (Call Nat String String)) rfl
  refine ⟨_,reachable,(order_irrelevant_iff 2 "make" _ (by decide)).mpr fun _ pid listed => ?_⟩
  have either : pid = 0 ∨ pid = 1 := by simpa [AList.mem_keys,AList.keys] using listed
  rcases either with rfl | rfl <;> decide

/-- The command 1 has been refused, so the machine does not know it: whether `enqueue`
returns depends on which of the two entries comes first. -/
theorem order_irrelevant_fails : ∃ trace, ∃ machine : Machine Nat String String,
    ∃ first second : OrderedMap Nat Condition,
    System.replay new call [.enqueue 0 "false" ∅,.startCompleted 0 .failure,
      .enqueue 1 "make" (AList.singleton 0 (some .success))] = .ok (trace,machine) ∧
    (∀ pid, pid ∈ first.toFinmap → pid ∈ enqueuedPids trace) ∧ ¬machine.Known 2 ∧
    first.toFinmap = second.toFinmap ∧
    machine.enqueue 2 "ls" first = .ok ([.conditionFailed 2 "ls"],machine) ∧
    machine.enqueue 2 "ls" second = .error .assertion ∧
    ¬OrderIrrelevant machine 2 "ls" first.toFinmap := by
  let first : OrderedMap Nat Condition := ⟨[⟨0,some .success⟩,⟨1,none⟩],by simp [List.NodupKeys]⟩
  let second : OrderedMap Nat Condition := ⟨[⟨1,none⟩,⟨0,some .success⟩],by simp [List.NodupKeys]⟩
  have same : first.toFinmap = second.toFinmap := AList.toFinmap_eq.mpr (List.Perm.swap _ _ _)
  refine ⟨_,_,first,second,rfl,fun pid listed => ?_,by decide,same,rfl,rfl,?_⟩
  · have either : pid = 0 ∨ pid = 1 := by simpa [first,AList.mem_keys,AList.keys] using listed
    rcases either with rfl | rfl <;> decide
  · intro irrelevant
    rcases irrelevant _ _ rfl same.symm with ⟨_,one,two⟩ | ⟨neither,_⟩
    · cases two
    · exact neither ⟨_,rfl⟩

end Nak.Machine
