import Nak.ExecStages

/-! The edits the frontend has been asked for. An edit has one entry in `waiting_edits`, and
its command runs in the machine, from the request to the answer; a send that fails would
leave an entry behind. -/
namespace Nak
open Library Action

def Effect.editId? : Effect → Option Nat
  | .sent (.editRequest _ editId _ _) => some editId
  | _ => none

namespace ExecInternal
variable {os : Os} {exec next start : ExecInternal} {pid : ProcessId}

def editRequests (effects : List Effect) : List Nat := effects.filterMap Effect.editId?

structure SameEdits (exec next : ExecInternal) : Prop where
  waitingEdits : next.waitingEdits = exec.waitingEdits
  editIds : next.editIds = exec.editIds
  effects : ∃ more, next.effects = exec.effects ++ more ∧ editRequests more = []

instance : IsPreorder ExecInternal SameEdits where
  refl _ := ⟨rfl,rfl,[],(List.append_nil _).symm,rfl⟩
  trans _ _ _ first second := by
    obtain ⟨edits,ids,more,effects,none⟩ := first
    obtain ⟨edits',ids',rest,appended,none'⟩ := second
    refine ⟨edits'.trans edits,ids'.trans ids,more ++ rest,by rw [appended,effects,List.append_assoc],?_⟩
    rw [editRequests,List.filterMap_append,← editRequests,← editRequests,none,none',List.append_nil]

theorem SameEdits.one {effect : Effect} (none : effect.editId? = none) (edits : next.waitingEdits = exec.waitingEdits)
    (ids : next.editIds = exec.editIds) (effects : next.effects = exec.effects ++ [effect]) : SameEdits exec next :=
  ⟨edits,ids,[effect],effects,by simp [editRequests,none]⟩

theorem sameEdits_taking : Taking os pid SameEdits := by
  apply Taking.of_same
  · intro exec next same ids
    exact ⟨same.waitingEdits,ids,[],by rw [same.effects,List.append_nil],rfl⟩
  · intro effect ordinary
    apply Keeps.modify
    intro exec
    cases ordinary <;> exact .one rfl rfl rfl rfl

theorem Idle.sameEdits (idle : Idle exec next) : SameEdits exec next := by
  obtain ⟨_,edits,ids,more,effects,none⟩ := idle
  refine ⟨edits,ids,more,effects,?_⟩
  rw [editRequests,List.filterMap_eq_nil_iff]
  intro effect member
  cases shape : effect.editId? with
  | none => rfl
  | some editId =>
    obtain ⟨pid,name,data,rfl⟩ : ∃ pid name data, effect = .sent (.editRequest pid editId name data) := by
      unfold Effect.editId? at shape
      split at shape
      · rename_i pid editId' name data
        obtain rfl := Option.some.inj shape
        exact ⟨pid,name,data,rfl⟩
      · cases shape
    exact absurd (none _ member .none) nofun

structure AsksEdit (pid : ProcessId) (path : String) (exec next : ExecInternal) : Prop where
  waitingEdits : next.waitingEdits = exec.waitingEdits.insert exec.editIds.nextId (pid,path)
  editIds : next.editIds = ⟨exec.editIds.nextId + 1⟩
  effects : ∃ more data, next.effects = exec.effects ++ more ++
    [.sent (.editRequest pid exec.editIds.nextId path data)] ∧
    editRequests more = []

theorem AsksEdit.after {path : String} (asks : AsksEdit pid path start next) (same : SameEdits exec start) :
    AsksEdit pid path exec next := by
  obtain ⟨edits,ids,before,effects,none⟩ := same
  obtain ⟨edits',ids',more,data,appended,none'⟩ := asks
  rw [ids] at edits' ids' appended
  refine ⟨edits'.trans (by rw [edits]),ids',before ++ more,data,?_,?_⟩
  · rw [appended,effects]
    simp only [List.append_assoc]
  · rw [editRequests,List.filterMap_append,← editRequests,← editRequests,none,none',List.append_nil]

/-- A command runs as an edit when the frontend is asked for it, and only then. -/
inductive RunEdits (pid : ProcessId) (exec : ExecInternal) : Except Error RunResult → ExecInternal → Prop
  | same (result next) (same : SameEdits exec next) (other : result ≠ .ok (.process .awaitingEdit)) :
      RunEdits pid exec result next
  | asks (path next) (asks : AsksEdit pid path exec next) : RunEdits pid exec (.ok (.process .awaitingEdit)) next

theorem beginEditRequest_asks {path : String} {data : Bytes} {result : Except Error Unit}
    (sends : ∀ response, os.send response = .ok ()) (ok : beginEditRequest os pid path data exec = .ok (result,next)) :
    result = .ok () ∧ AsksEdit pid path exec next := by
  unfold beginEditRequest editRequest send at ok
  rw [get_bind] at ok
  simp only [Ids.next,sends] at ok
  obtain ⟨rfl,rfl⟩ := Prod.mk.inj (Except.ok.inj ok)
  exact ⟨rfl,rfl,rfl,[],data,by rw [List.append_nil],rfl⟩

theorem run_edits {c : RunCmd} {result : Except Error RunResult} (sends : ∀ response, os.send response = .ok ())
    (ok : run os pid c exec = .ok (result,next)) : RunEdits pid exec result next := by
  have began : SameEdits exec { exec with effects := exec.effects ++ [.running pid c.cmd] } := .one rfl rfl rfl rfl
  have cases := run_cases ok
  obtain ⟨cmd,pipes⟩ := c
  by_cases edits : ∃ path, cmd = .edit path
  · obtain ⟨path,rfl⟩ := edits
    obtain ⟨_,_,caused,ok⟩ := (cause_errorless _).continues ok
    obtain ⟨_,rfl⟩ := cause_ok caused
    cases result with
    | error e =>
      rcases bind_raised.mp ok with raised | ⟨contents,middle,_,ok⟩
      · obtain rfl := readContents_same raised
        exact .same _ _ began nofun
      · rcases bind_raised.mp ok with raised | ⟨_,_,_,last⟩
        · obtain ⟨sent,_⟩ := beginEditRequest_asks sends raised
          cases sent
        · cases last
    | ok value =>
      obtain ⟨contents,middle,read,ok⟩ := bind_ok.mp ok
      obtain rfl := readContents_same read
      obtain ⟨_,_,asked,last⟩ := bind_ok.mp ok
      obtain ⟨rfl,rfl⟩ := pure_ok.mp last
      obtain ⟨_,asks⟩ := beginEditRequest_asks sends asked
      exact .asks path _ (asks.after began)
  · have same := sameEdits_taking.after_running (fun path same => edits ⟨path,same⟩) ok
    refine .same _ _ (IsTrans.trans _ _ _ began same) ?_
    intro awaits
    subst awaits
    cases cases
    exact edits ⟨_,rfl⟩

def Edits (exec : ExecInternal) (pid : ProcessId) : Prop := exec.machine.running.lookup pid = some .awaitingEdit

/-- Who runs as an edit has one entry, and each entry is that of a request. -/
structure EditsKept (exec : ExecInternal) : Prop where
  entries : ∀ editId entry, exec.waitingEdits.lookup editId = some entry →
    Edits exec entry.1 ∧ ∃ data, .sent (.editRequest entry.1 editId entry.2 data) ∈ exec.effects
  awaited : ∀ pid, Edits exec pid → ∃! editId, ∃ path, exec.waitingEdits.lookup editId = some (pid,path)
  below : ∀ editId ∈ editRequests exec.effects, editId < exec.editIds.nextId
  distinct : (editRequests exec.effects).Nodup

theorem editsKept_new : EditsKept new where
  entries := by simp [new]
  awaited := by simp [Edits,new,Machine.new]
  below := by simp [editRequests,new]
  distinct := List.nodup_nil

namespace EditsKept

theorem same (kept : EditsKept exec) (same : SameEdits exec next) (edits : ∀ pid, Edits next pid ↔ Edits exec pid) :
    EditsKept next := by
  obtain ⟨waits,ids,more,effects,none⟩ := same
  have requests : editRequests next.effects = editRequests exec.effects := by
    rw [effects,editRequests,List.filterMap_append,← editRequests,← editRequests,none,List.append_nil]
  constructor
  · intro editId entry found
    rw [waits] at found
    obtain ⟨running,data,sent⟩ := kept.entries editId entry found
    exact ⟨(edits entry.1).mpr running,data,effects ▸ List.mem_append_left _ sent⟩
  · intro pid running
    rw [waits]
    exact kept.awaited pid ((edits pid).mp running)
  · rw [requests,ids]
    exact kept.below
  · rw [requests]
    exact kept.distinct

theorem asks {path : String} (kept : EditsKept exec) (asks : AsksEdit pid path exec next) (fresh : ¬Edits exec pid)
    (edits : ∀ other, Edits next other ↔ Edits exec other ∨ other = pid) : EditsKept next := by
  obtain ⟨waits,ids,more,data,effects,none⟩ := asks
  have requests : editRequests next.effects = editRequests exec.effects ++ [exec.editIds.nextId] := by
    rw [effects,editRequests,List.filterMap_append,List.filterMap_append,← editRequests,← editRequests,none,
      List.append_nil]
    rfl
  have unused : ∀ entry, exec.waitingEdits.lookup exec.editIds.nextId ≠ some entry := by
    intro entry found
    obtain ⟨_,data,sent⟩ := kept.entries _ entry found
    exact absurd (kept.below _ (List.mem_filterMap.mpr ⟨_,sent,rfl⟩)) (lt_irrefl _)
  constructor
  · intro editId entry found
    rw [waits,FiniteMap.lookup_insert_if] at found
    split at found
    · rename_i same
      subst same
      obtain rfl := Option.some.inj found
      exact ⟨(edits pid).mpr (Or.inr rfl),data,effects ▸ List.mem_append_right _ (List.mem_singleton.mpr rfl)⟩
    · obtain ⟨running,data,sent⟩ := kept.entries editId entry found
      refine ⟨(edits entry.1).mpr (Or.inl running),data,effects ▸ ?_⟩
      exact List.mem_append_left _ (List.mem_append_left _ sent)
  · intro other running
    rw [waits]
    by_cases same : other = pid
    · subst same
      refine ⟨exec.editIds.nextId,⟨path,Finmap.lookup_insert _⟩,?_⟩
      intro editId given
      obtain ⟨path',found⟩ := given
      rw [FiniteMap.lookup_insert_if] at found
      split at found
      · assumption
      · exact absurd (kept.entries editId _ found).1 fresh
    · obtain ⟨editId,⟨path',found⟩,only⟩ := kept.awaited other (((edits other).mp running).resolve_right same)
      refine ⟨editId,⟨path',?_⟩,?_⟩
      · rw [FiniteMap.lookup_insert_if,if_neg,found]
        intro same
        exact unused _ (same ▸ found)
      · intro editId' given
        obtain ⟨path'',found'⟩ := given
        rw [FiniteMap.lookup_insert_if] at found'
        split at found'
        · exact absurd (congrArg Prod.fst (Option.some.inj found')).symm same
        · exact only editId' ⟨path'',found'⟩
  · intro editId member
    rw [requests] at member
    rw [ids]
    rcases List.mem_append.mp member with old | new
    · exact (kept.below editId old).trans (Nat.lt_succ_self _)
    · rw [List.mem_singleton.mp new]
      exact Nat.lt_succ_self _
  · rw [requests]
    refine kept.distinct.append (List.nodup_singleton _) ?_
    intro editId old new
    rw [List.mem_singleton.mp new] at old
    exact absurd (kept.below _ old) (lt_irrefl _)

theorem answered {editId : Nat} {path : String} (kept : EditsKept exec)
    (found : exec.waitingEdits.lookup editId = some (pid,path))
    (waits : next.waitingEdits = exec.waitingEdits.erase editId) (ids : next.editIds = exec.editIds)
    (effects : ∃ more, next.effects = exec.effects ++ more ∧ editRequests more = [])
    (edits : ∀ other, Edits next other ↔ Edits exec other ∧ other ≠ pid) : EditsKept next := by
  have left : EditsKept { next with
      waitingEdits := exec.waitingEdits
      machine := exec.machine } := kept.same ⟨rfl,ids,effects⟩ fun _ => Iff.rfl
  obtain ⟨_,_,only⟩ := kept.awaited pid (kept.entries editId _ found).1
  have own := only editId ⟨path,found⟩
  constructor
  · intro other entry lookup
    rw [waits,FiniteMap.lookup_erase_if] at lookup
    split at lookup
    · cases lookup
    · rename_i different
      obtain ⟨running,sent⟩ := left.entries other entry lookup
      refine ⟨(edits entry.1).mpr ⟨running,?_⟩,sent⟩
      intro same
      exact different ((only other ⟨entry.2,by rw [lookup,← same]⟩).trans own.symm)
  · intro other running
    obtain ⟨running,different⟩ := (edits other).mp running
    obtain ⟨editId',⟨path',lookup⟩,only'⟩ := kept.awaited other running
    rw [waits]
    refine ⟨editId',⟨path',?_⟩,?_⟩
    · rw [FiniteMap.lookup_erase_if,if_neg,lookup]
      intro same
      rw [same,found] at lookup
      exact different (congrArg Prod.fst (Option.some.inj lookup)).symm
    · intro editId'' given
      obtain ⟨path'',lookup'⟩ := given
      rw [FiniteMap.lookup_erase_if] at lookup'
      split at lookup'
      · cases lookup'
      · exact only' editId'' ⟨path'',lookup'⟩
  · exact left.below
  · exact left.distinct

end EditsKept

section Tasks
variable {task : Task ProcessId RunCmd} {queue tasks : List (Task ProcessId RunCmd)}

theorem report_sameEdits (exec : ExecInternal) (pid : ProcessId) (code : Int) : SameEdits exec (report exec pid code) :=
  .one rfl rfl rfl rfl

private theorem finished_kept {status : ExitStatus} {code : Int} {machine : Machine ProcessId RunCmd ProcessState}
    (kept : EditsKept exec) (inv : Machine.Inv exec.machine) (same : SameEdits exec next)
    (told : next.machine = machine)
    (completed : exec.machine.startCompleted pid status = .ok (tasks,machine)) : EditsKept (report next pid code) := by
  obtain ⟨toRun,_,finishes⟩ := inv.startCompleted_cases completed
  subst told
  refine kept.same (IsTrans.trans _ _ _ same (report_sameEdits next pid code)) fun other => ?_
  have absent := Finmap.lookup_eq_none.mpr (inv.toRun_apart pid toRun).1
  change next.machine.running.lookup other = _ ↔ exec.machine.running.lookup other = _
  rw [finishes.running,FiniteMap.lookup_erase_if]
  split
  · rename_i equal
    rw [equal,absent]
  · rfl

theorem processTask_edits (sends : ∀ response, os.send response = .ok ()) (inv : Machine.Inv exec.machine)
    (kept : EditsKept exec) (ok : processTask os task exec = .ok (.ok tasks,next)) : EditsKept next := by
  have shape := processTask_cases ok
  cases shape with
  | refused pid cmd => exact kept.same (report_sameEdits exec pid 1) fun _ => Iff.rfl
  | started pid cmd state middle ran quiet toRun =>
    have absent := Finmap.lookup_eq_none.mpr (inv.toRun_apart pid toRun).1
    have runs (other : ProcessId) : (exec.machine.running.insert pid state).lookup other = some .awaitingEdit ↔
        Edits exec other ∧ other ≠ pid ∨ other = pid ∧ state = .awaitingEdit := by
      rw [FiniteMap.lookup_insert_if]
      by_cases equal : other = pid
      · simp [equal]
      · simp [equal,Edits]
    generalize same : (Except.ok (RunResult.process state) : Except Error RunResult) = result at ran
    cases run_edits sends ran with
    | same result middle same' other =>
      have child : state ≠ .awaitingEdit := by
        intro awaits
        exact other (by rw [← same,awaits])
      refine kept.same ⟨same'.waitingEdits,same'.editIds,same'.effects⟩ fun other => (runs other).trans ?_
      simp only [child,and_false,or_false,and_iff_left_iff_imp]
      intro running equal
      rw [Edits,equal,absent] at running
      cases running
    | asks path middle asks =>
      obtain rfl : state = .awaitingEdit := by simpa using same
      refine kept.asks ⟨asks.waitingEdits,asks.editIds,asks.effects⟩ ?_ fun other => (runs other).trans ?_
      · intro running
        rw [Edits,absent] at running
        cases running
      · by_cases equal : other = pid <;> simp [equal]
  | done pid cmd exitCode middle tasks machine ran quiet completed =>
    generalize same : (Except.ok (RunResult.alreadyDone exitCode) : Except Error RunResult) = result at ran
    cases run_edits sends ran with
    | same result middle same' =>
      exact finished_kept kept inv ⟨same'.waitingEdits,same'.editIds,same'.effects⟩ rfl completed
    | asks => cases same
  | failed pid cmd e middle tasks machine after ran quiet completed closed silent =>
    generalize same : (Except.error e : Except Error RunResult) = result at ran
    cases run_edits sends ran with
    | same result middle same' =>
      have began : SameEdits exec { middle with machine } := ⟨same'.waitingEdits,same'.editIds,same'.effects⟩
      have taking : Taking os pid SameEdits := sameEdits_taking
      have closing := (taking.pipeOutputAndClose cmd.pipes [] (bytes e.debug)).after closed
      exact finished_kept kept inv (IsTrans.trans _ _ _ began closing) silent.machine completed
    | asks => cases same

theorem processTasks_edits (sends : ∀ response, os.send response = .ok ()) (inv : Machine.Inv exec.machine)
    (kept : EditsKept exec) (ok : processTasks os tasks exec = .ok (.ok (),next)) : EditsKept next := by
  have both := processTasks_queue (fun _ exec => Machine.Inv exec.machine ∧ EditsKept exec) ?_ ⟨inv,kept⟩ ok
  · exact both.2
  · intro task rest exec new next both ok
    exact ⟨processTask_inv both.1 ok,processTask_edits sends both.1 both.2 ok⟩

/-- No command is completed while it is being edited, but by the answer to its request. -/
theorem handle_edits {event : ExecEvent} (sends : ∀ response, os.send response = .ok ())
    (inv : Machine.Inv exec.machine) (kept : EditsKept exec)
    (elsewhere : ∀ pid exitCode, event = .completed pid exitCode → ¬Edits exec pid)
    (ok : handle os event exec = .ok next) : EditsKept next := by
  obtain ⟨tasks,start,begins,processed⟩ := handle_begins ok
  suffices both : Machine.Inv start.machine ∧ EditsKept start from processTasks_edits sends both.1 both.2 processed
  cases begins with
  | enqueued pid cmd blockFor tasks machine enqueued =>
    have call : exec.machine.call (.enqueue pid cmd blockFor) = .ok (tasks,machine) := enqueued
    refine ⟨(inv.call_cases call).inv inv,kept.same ⟨rfl,rfl,[],(List.append_nil _).symm,rfl⟩ fun other => ?_⟩
    obtain ⟨_,added⟩ := Machine.enqueue_cases _ _ _ _ _ _ enqueued
    cases added with
    | blocked _ _ _ after => simp only [Edits,after.running]
    | _ => rfl
  | completed pid exitCode tasks machine completed =>
    obtain ⟨running,_,finishes⟩ := inv.completed_cases completed
    refine ⟨finishes.inv inv (Or.inr running),kept.same (.one rfl rfl rfl rfl) fun other => ?_⟩
    change machine.running.lookup other = _ ↔ _
    rw [finishes.running,FiniteMap.lookup_erase_if]
    split
    · rename_i equal
      subst equal
      exact ⟨nofun,fun edits => absurd edits (elsewhere _ _ rfl)⟩
    · rfl
  | edited editId data pid path tasks machine found completed =>
    obtain ⟨running,_,finishes⟩ := inv.completed_cases completed
    refine ⟨finishes.inv inv (Or.inr running),?_⟩
    refine kept.answered found rfl rfl ⟨[.written path data,.sent (.commandDone pid 0)],by simp [report],rfl⟩ ?_
    intro other
    change machine.running.lookup other = _ ↔ _
    rw [finishes.running,FiniteMap.lookup_erase_if]
    split
    · rename_i equal
      simp [equal]
    · rename_i different
      exact (and_iff_left different).symm
  | idle event next idle =>
    refine ⟨idle.machine ▸ inv,kept.same idle.sameEdits fun other => ?_⟩
    rw [Edits,idle.machine,Edits]

end Tasks
end ExecInternal
end Nak
