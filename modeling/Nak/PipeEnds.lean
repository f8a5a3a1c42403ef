import Nak.ExecEvents

/-! Pipe ends asked for in any order. The first that is asked of an id decides what its ends
are ends of; whatever comes first parks the other side in the table. -/
namespace Nak.PipeEnds
open Library Action ExecInternal

inductive Ask where
  | readEnd
  | writeEnd
  | openInputFile (path : String)
  | openOutputFile (path : String)
  deriving DecidableEq, Repr

structure Call where
  pipe : GenericPipe
  ask : Ask
  deriving DecidableEq, Repr

def perform (os : Os) (call : Call) : Exec (Option Handle) :=
  match call.ask with
  | .readEnd => do
    let input ← readEnd os call.pipe.toRead
    pure (some input.handle)
  | .writeEnd => do
    let output ← writeEnd os call.pipe.toWrite
    pure (some output.handle)
  | .openInputFile path => do
    openInputFile os call.pipe.toRead path
    pure none
  | .openOutputFile path => do
    openOutputFile os call.pipe.toWrite path
    pure none

def performAll : List (Os × Call) → Exec (List (Call × Option Handle))
  | [] => pure []
  | (os,call) :: calls => do
    let handle ← perform os call
    let handed ← performAll calls
    pure ((call,handle) :: handed)

/-- What may still be asked of an id: the other side of a pipe, or the side of a file. -/
def Ask.Before : Ask → Ask → Prop
  | .readEnd, .writeEnd => True
  | .writeEnd, .readEnd => True
  | .openInputFile _, .readEnd => True
  | .openOutputFile _, .writeEnd => True
  | _, _ => False

def Call.Before (first second : Call) : Prop := first.pipe = second.pipe → first.ask.Before second.ask

def Opens (os : Os) : Ask → Prop
  | .openInputFile _ => os.openInput = .ok ()
  | .openOutputFile _ => os.create = .ok ()
  | _ => True

structure Disciplined (calls : List (Os × Call)) : Prop where
  ordered : (calls.map Prod.snd).Pairwise Call.Before
  opens : ∀ os call, (os,call) ∈ calls → Opens os call.ask

/-- A call asks the system for a pipe: it wants an end of an id of which nothing was asked before. -/
def Allocates (before : List Call) (call : Call) : Prop :=
  (call.ask = .readEnd ∨ call.ask = .writeEnd) ∧ ∀ earlier ∈ before, earlier.pipe ≠ call.pipe

def Refused (calls : List (Os × Call)) : Prop := ∃ before os call after e,
  calls = before ++ (os,call) :: after ∧ Allocates (before.map Prod.snd) call ∧ os.allocPipe call.pipe = .error e

def number : Handle → Nat
  | .pipe number _ => number
  | .file number _ => number

/-- What was handed out, and what is left in the table. -/
structure Paired (handed : List (Call × Option Handle)) (final : ExecInternal) : Prop where
  given : ∀ call handle, (call,handle) ∈ handed → (call.ask = .readEnd ∨ call.ask = .writeEnd) → handle.isSome
  same : ∀ pipe read write, (⟨pipe,.readEnd⟩,some read) ∈ handed → (⟨pipe,.writeEnd⟩,some write) ∈ handed →
    read = write ∧ ∃ number, read = .pipe number pipe
  input : ∀ pipe path opened handle, (⟨pipe,.openInputFile path⟩,opened) ∈ handed →
    (⟨pipe,.readEnd⟩,some handle) ∈ handed → ∃ number, handle = .file number path
  output : ∀ pipe path opened handle, (⟨pipe,.openOutputFile path⟩,opened) ∈ handed →
    (⟨pipe,.writeEnd⟩,some handle) ∈ handed → ∃ number, handle = .file number path
  apart : ∀ call other handle handle', (call,some handle) ∈ handed → (other,some handle') ∈ handed →
    call.pipe ≠ other.pipe → number handle ≠ number handle'
  neither : ∀ pipe read write, (⟨pipe,.readEnd⟩,read) ∈ handed → (⟨pipe,.writeEnd⟩,write) ∈ handed →
    final.openHandles.lookup pipe = some ⟨none,none⟩

/-- What the first that is asked of an id makes its ends ends of. -/
def Ask.origin (pipe : GenericPipe) (number : Nat) : Ask → Handle
  | .readEnd => .pipe number pipe
  | .writeEnd => .pipe number pipe
  | .openInputFile path => .file number path
  | .openOutputFile path => .file number path

def Ask.hands (origin : Handle) : Ask → Option Handle
  | .readEnd => some origin
  | .writeEnd => some origin
  | .openInputFile _ => none
  | .openOutputFile _ => none

/-- What the first that is asked of an id leaves in the table. -/
def Ask.parks (pipe : GenericPipe) (number : Nat) : Ask → Pair
  | .readEnd => ⟨none,some (.fromPipe number pipe)⟩
  | .writeEnd => ⟨some (.fromPipe number pipe),none⟩
  | .openInputFile path => ⟨some (.fromFile number path),none⟩
  | .openOutputFile path => ⟨none,some (.fromFile number path)⟩

def asks (pipe : GenericPipe) (done : List (Call × Option Handle)) : List Ask :=
  (done.filter fun item => item.1.pipe = pipe).map fun item => item.1.ask

def entry (pipe : GenericPipe) (number : Nat) : List Ask → Option Pair
  | [] => none
  | [first] => some (first.parks pipe number)
  | _ => some ⟨none,none⟩

/-- The table after some calls, where each id has a number of its own. -/
structure Table (numbers : GenericPipe → Nat) (done : List (Call × Option Handle)) (exec : ExecInternal) : Prop where
  ordered : (done.map Prod.fst).Pairwise Call.Before
  older : ∀ item ∈ done, numbers item.1.pipe < exec.opened
  apart : ∀ item ∈ done, ∀ other ∈ done, numbers item.1.pipe = numbers other.1.pipe → item.1.pipe = other.1.pipe
  entries : ∀ pipe, exec.openHandles.lookup pipe = entry pipe (numbers pipe) (asks pipe done)
  handles : ∀ call handle, (call,handle) ∈ done → ∀ first ∈ (asks call.pipe done).head?,
    handle = call.ask.hands (first.origin call.pipe (numbers call.pipe))

section Calls
variable {os : Os} {exec : ExecInternal}

theorem takeEnd_found {α : Type} (side : PipeSide α) {pipe : GenericPipe} {pair : Pair} {handle : α}
    (found : exec.openHandles.lookup pipe = some pair) (held : side.handle pair = some handle) :
    takeEnd os side pipe exec =
      .ok (.ok handle,{ exec with openHandles := exec.openHandles.insert pipe (side.left pair) }) := by
  unfold takeEnd
  rw [get_bind,if_pos (FiniteMap.mem_of_lookup found),found,lift_continues (by rfl),lift_continues (by rw [held]; rfl)]
  rfl

theorem takeEnd_new {α : Type} {side : PipeSide α} {pipe : GenericPipe} (absent : exec.openHandles.lookup pipe = none)
    (made : os.allocPipe pipe = .ok ()) :
    takeEnd os side pipe exec = .ok (.ok (side.handed pipe exec.opened),{ exec with
      opened := exec.opened + 1
      openHandles := exec.openHandles.insert pipe (side.made pipe exec.opened) }) := by
  unfold takeEnd allocPipe
  rw [get_bind,if_neg (Finmap.lookup_eq_none.mp absent),made]
  rfl

theorem takeEnd_refused {α : Type} (side : PipeSide α) {pipe : GenericPipe} {e : Error}
    (absent : exec.openHandles.lookup pipe = none) (refused : os.allocPipe pipe = .error e) :
    takeEnd os side pipe exec = .error (.expect "alloc pipe failed") := by
  unfold takeEnd allocPipe
  rw [get_bind,if_neg (Finmap.lookup_eq_none.mp absent),refused]
  rfl

/-- What the first call on an id needs of the system. -/
def Makes (os : Os) (call : Call) : Prop :=
  Opens os call.ask ∧ ((call.ask = .readEnd ∨ call.ask = .writeEnd) → os.allocPipe call.pipe = .ok ())

theorem perform_first {call : Call} (absent : exec.openHandles.lookup call.pipe = none) (makes : Makes os call) :
    perform os call exec = .ok (.ok (call.ask.hands (call.ask.origin call.pipe exec.opened)),{ exec with
      opened := exec.opened + 1
      openHandles := exec.openHandles.insert call.pipe (call.ask.parks call.pipe exec.opened) }) := by
  obtain ⟨pipe,ask⟩ := call
  obtain ⟨opens,made⟩ := makes
  unfold perform
  cases ask with
  | readEnd =>
    dsimp only
    rw [readEnd_eq,ok_bind (takeEnd_new (by exact absent) (by exact made (.inl rfl)))]
    rfl
  | writeEnd =>
    dsimp only
    rw [writeEnd_eq,ok_bind (takeEnd_new (by exact absent) (by exact made (.inr rfl)))]
    rfl
  | openInputFile path =>
    have opened : openInputFile os pipe.toRead path exec = .ok (.ok (),{ exec with
        opened := exec.opened + 1
        openHandles := exec.openHandles.insert pipe (Ask.parks pipe exec.opened (.openInputFile path)) }) := by
      have ready : os.openInput = .ok () := opens
      unfold openInputFile
      rw [get_bind,lift_continues (Outcome.assert_true (by exact Finmap.lookup_eq_none.mp absent)),ready]
      rfl
    dsimp only
    rw [ok_bind opened]
    rfl
  | openOutputFile path =>
    have created : openOutputFile os pipe.toWrite path exec = .ok (.ok (),{ exec with
        opened := exec.opened + 1
        openHandles := exec.openHandles.insert pipe (Ask.parks pipe exec.opened (.openOutputFile path)) }) := by
      have ready : os.create = .ok () := opens
      unfold openOutputFile
      rw [get_bind,lift_continues (Outcome.assert_true (by exact Finmap.lookup_eq_none.mp absent)),ready]
      rfl
    dsimp only
    rw [ok_bind created]
    rfl

theorem perform_refused {call : Call} {e : Error} (wanted : call.ask = .readEnd ∨ call.ask = .writeEnd)
    (absent : exec.openHandles.lookup call.pipe = none) (refused : os.allocPipe call.pipe = .error e) :
    perform os call exec = .error (.expect "alloc pipe failed") := by
  unfold perform
  rcases wanted with read | write
  · rw [read]
    exact panic_bind (takeEnd_refused readSide absent refused)
  · rw [write]
    exact panic_bind (takeEnd_refused writeSide absent refused)

theorem perform_second {call : Call} {first : Ask} {number : Nat} (fits : first.Before call.ask)
    (parked : exec.openHandles.lookup call.pipe = some (first.parks call.pipe number)) :
    perform os call exec = .ok (.ok (call.ask.hands (first.origin call.pipe number)),
      { exec with openHandles := exec.openHandles.insert call.pipe ⟨none,none⟩ }) := by
  obtain ⟨pipe,ask⟩ := call
  unfold perform
  cases first <;> cases ask <;> simp only [Ask.Before] at fits
  · exact ok_bind (takeEnd_found writeSide parked rfl)
  · exact ok_bind (takeEnd_found readSide parked rfl)
  · exact ok_bind (takeEnd_found readSide parked rfl)
  · exact ok_bind (takeEnd_found writeSide parked rfl)

end Calls

section Asks
variable {pipe : GenericPipe} {done : List (Call × Option Handle)}

theorem asks_append (pipe : GenericPipe) (done : List (Call × Option Handle)) (call : Call) (handle : Option Handle) :
    asks pipe (done ++ [(call,handle)]) = asks pipe done ++ if call.pipe = pipe then [call.ask] else [] := by
  by_cases same : call.pipe = pipe
  · simp [asks,same]
  · simp [asks,same]

theorem mem_asks {ask : Ask} : ask ∈ asks pipe done ↔ ∃ handle, (⟨pipe,ask⟩,handle) ∈ done := by
  simp only [asks,List.mem_map,List.mem_filter,decide_eq_true_eq]
  constructor
  · rintro ⟨⟨⟨pipe,ask⟩,handle⟩,⟨listed,rfl⟩,rfl⟩
    exact ⟨handle,listed⟩
  · rintro ⟨handle,listed⟩
    exact ⟨_,⟨listed,rfl⟩,rfl⟩

theorem asks_eq_nil : asks pipe done = [] ↔ ∀ item ∈ done, item.1.pipe ≠ pipe := by
  simp [asks]

theorem asks_ordered (pipe : GenericPipe) (ordered : (done.map Prod.fst).Pairwise Call.Before) :
    (asks pipe done).Pairwise Ask.Before := by
  rw [List.pairwise_map] at ordered
  rw [asks,List.pairwise_map]
  refine (ordered.filter _).imp_of_mem ?_
  intro item other listed listed' before
  simp only [List.mem_filter,decide_eq_true_eq] at listed listed'
  exact before (listed.2.trans listed'.2.symm)

theorem Ask.not_third {first second third : Ask} (early : first.Before second) (late : first.Before third) :
    ¬second.Before third := by
  cases first <;> cases second <;> cases third <;> simp_all [Ask.Before]

theorem asks_shape (pipe : GenericPipe) (ordered : (done.map Prod.fst).Pairwise Call.Before) :
    asks pipe done = [] ∨ (∃ first, asks pipe done = [first]) ∨
      ∃ first second, asks pipe done = [first,second] ∧ first.Before second := by
  have pairwise := asks_ordered pipe ordered
  rcases found : asks pipe done with _ | ⟨first,_ | ⟨second,_ | ⟨third,more⟩⟩⟩
  · exact .inl rfl
  · exact .inr (.inl ⟨first,rfl⟩)
  · rw [found] at pairwise
    exact .inr (.inr ⟨first,second,rfl,by simpa using pairwise⟩)
  · rw [found] at pairwise
    simp only [List.pairwise_cons,List.mem_cons,forall_eq_or_imp] at pairwise
    obtain ⟨⟨early,late,-⟩,⟨then',-⟩,-⟩ := pairwise
    exact absurd then' (Ask.not_third early late)

theorem asks_fits {call : Call} (ordered : (done.map Prod.fst).Pairwise Call.Before)
    (fits : ∀ item ∈ done, item.1.Before call) :
    asks call.pipe done = [] ∨ ∃ first, asks call.pipe done = [first] ∧ first.Before call.ask := by
  have before : ∀ ask ∈ asks call.pipe done, ask.Before call.ask := by
    intro ask listed
    obtain ⟨handle,member⟩ := mem_asks.mp listed
    exact fits _ member rfl
  rcases asks_shape call.pipe ordered with none | ⟨first,one⟩ | ⟨first,second,two,early⟩
  · exact .inl none
  · exact .inr ⟨first,one,before first (by simp [one])⟩
  · exact absurd (before second (by simp [two])) (Ask.not_third early (before first (by simp [two])))

end Asks

section Steps
variable {numbers : GenericPipe → Nat} {done : List (Call × Option Handle)} {exec : ExecInternal} {call : Call}

theorem ordered_append {handle : Option Handle} (ordered : (done.map Prod.fst).Pairwise Call.Before)
    (fits : ∀ item ∈ done, item.1.Before call) : ((done ++ [(call,handle)]).map Prod.fst).Pairwise Call.Before := by
  rw [List.map_append,List.pairwise_append]
  refine ⟨ordered,by simp,?_⟩
  simpa using fun other handle listed => fits (other,handle) listed

theorem apart_append {handle : Option Handle}
    (apart : ∀ item ∈ done, ∀ other ∈ done, numbers item.1.pipe = numbers other.1.pipe → item.1.pipe = other.1.pipe)
    (new : ∀ item ∈ done, numbers item.1.pipe = numbers call.pipe → item.1.pipe = call.pipe) :
    ∀ item ∈ done ++ [(call,handle)], ∀ other ∈ done ++ [(call,handle)],
      numbers item.1.pipe = numbers other.1.pipe → item.1.pipe = other.1.pipe := by
  intro item listed other listed' same
  rcases List.mem_append.mp listed with old | now
  · rcases List.mem_append.mp listed' with old' | now'
    · exact apart item old other old' same
    · obtain rfl := List.mem_singleton.mp now'
      exact new item old same
  · obtain rfl := List.mem_singleton.mp now
    rcases List.mem_append.mp listed' with old' | now'
    · exact (new other old' same.symm).symm
    · obtain rfl := List.mem_singleton.mp now'
      rfl

theorem Table.first (table : Table numbers done exec) (fits : ∀ item ∈ done, item.1.Before call)
    (none : asks call.pipe done = []) :
    Table (Function.update numbers call.pipe exec.opened)
      (done ++ [(call,call.ask.hands (call.ask.origin call.pipe exec.opened))]) { exec with
        opened := exec.opened + 1
        openHandles := exec.openHandles.insert call.pipe (call.ask.parks call.pipe exec.opened) } := by
  have others := asks_eq_nil.mp none
  have kept : ∀ item ∈ done, Function.update numbers call.pipe exec.opened item.1.pipe = numbers item.1.pipe :=
    fun item listed => Function.update_of_ne (others item listed) _ _
  refine ⟨ordered_append table.ordered fits,?_,?_,?_,?_⟩
  · intro item listed
    rcases List.mem_append.mp listed with old | new
    · rw [kept item old]
      exact Nat.lt_succ_of_lt (table.older item old)
    · obtain rfl := List.mem_singleton.mp new
      simp
  · apply apart_append
    · intro item old other old' same
      rw [kept item old,kept other old'] at same
      exact table.apart item old other old' same
    · intro item old same
      rw [kept item old,Function.update_self] at same
      exact absurd same (Nat.ne_of_lt (table.older item old))
  · intro pipe
    rw [asks_append,FiniteMap.lookup_insert_if]
    by_cases same : pipe = call.pipe
    · subst same
      simp [none,entry]
    · rw [if_neg same,if_neg (Ne.symm same),List.append_nil,Function.update_of_ne same,table.entries]
  · intro item handle listed first heads
    rw [asks_append] at heads
    rcases List.mem_append.mp listed with old | new
    · have different := others _ old
      rw [if_neg (Ne.symm different),List.append_nil] at heads
      rw [kept _ old]
      exact table.handles item handle old first heads
    · obtain ⟨rfl,rfl⟩ := Prod.mk.inj (List.mem_singleton.mp new)
      obtain rfl : first = item.ask := by simpa [none,eq_comm] using heads
      rw [Function.update_self]

theorem Table.second {asked : Ask} (table : Table numbers done exec) (fits : ∀ item ∈ done, item.1.Before call)
    (one : asks call.pipe done = [asked]) :
    Table numbers (done ++ [(call,call.ask.hands (asked.origin call.pipe (numbers call.pipe)))])
      { exec with openHandles := exec.openHandles.insert call.pipe ⟨none,none⟩ } := by
  obtain ⟨earlier,member⟩ := mem_asks.mp (one ▸ List.mem_singleton_self asked)
  refine ⟨ordered_append table.ordered fits,?_,?_,?_,?_⟩
  · intro item listed
    rcases List.mem_append.mp listed with old | new
    · exact table.older item old
    · obtain rfl := List.mem_singleton.mp new
      exact table.older (⟨call.pipe,asked⟩,earlier) member
  · apply apart_append table.apart
    intro item old same
    exact table.apart item old (⟨call.pipe,asked⟩,earlier) member same
  · intro pipe
    rw [asks_append,FiniteMap.lookup_insert_if]
    by_cases same : pipe = call.pipe
    · subst same
      simp [one,entry]
    · rw [if_neg same,if_neg (Ne.symm same),List.append_nil,table.entries]
  · intro item handle listed first heads
    rw [asks_append] at heads
    rcases List.mem_append.mp listed with old | new
    · refine table.handles item handle old first ?_
      by_cases same : call.pipe = item.pipe
      · rw [← same,one] at heads ⊢
        simpa using heads
      · simpa [same] using heads
    · obtain ⟨rfl,rfl⟩ := Prod.mk.inj (List.mem_singleton.mp new)
      obtain rfl : first = asked := by simpa [one,eq_comm] using heads
      rfl

end Steps

/-- After the calls that are done: one of those to come asks for a pipe that the system refuses, or
all are performed. -/
def Comes (done : List (Call × Option Handle)) (calls : List (Os × Call)) (exec : ExecInternal) : Prop :=
  (∃ before os call after e, calls = before ++ (os,call) :: after ∧
    Allocates (done.map Prod.fst ++ before.map Prod.snd) call ∧ os.allocPipe call.pipe = .error e ∧
    performAll calls exec = .error (.expect "alloc pipe failed")) ∨
  ∃ numbers handed final, performAll calls exec = .ok (.ok handed,final) ∧
    handed.map Prod.fst = calls.map Prod.snd ∧ Table numbers (done ++ handed) final

section Runs
variable {done : List (Call × Option Handle)} {exec next : ExecInternal} {os : Os} {call : Call}
  {calls : List (Os × Call)}

theorem Comes.cons {handle : Option Handle} (performed : perform os call exec = .ok (.ok handle,next))
    (comes : Comes (done ++ [(call,handle)]) calls next) : Comes done ((os,call) :: calls) exec := by
  rcases comes with ⟨before,os',call',after,e,rfl,allocates,refused,panics⟩ | ⟨numbers,handed,final,performs,same,table⟩
  · refine .inl ⟨(os,call) :: before,os',call',after,e,rfl,by simpa using allocates,refused,?_⟩
    rw [performAll,ok_bind performed,panic_bind panics]
  · refine .inr ⟨numbers,(call,handle) :: handed,final,?_,by simp [same],by simpa using table⟩
    rw [performAll,ok_bind performed,ok_bind performs]
    rfl

theorem Comes.refused {e : Error} (wanted : call.ask = .readEnd ∨ call.ask = .writeEnd)
    (none : asks call.pipe done = [])
    (absent : exec.openHandles.lookup call.pipe = .none) (refused : os.allocPipe call.pipe = .error e) :
    Comes done ((os,call) :: calls) exec := by
  refine .inl ⟨[],os,call,calls,e,rfl,⟨wanted,?_⟩,refused,?_⟩
  · simpa using asks_eq_nil.mp none
  · rw [performAll,panic_bind (perform_refused wanted absent refused)]

end Runs

theorem performAll_table {numbers : GenericPipe → Nat} {done : List (Call × Option Handle)} {exec : ExecInternal}
    (table : Table numbers done exec) (calls : List (Os × Call))
    (ordered : (done.map Prod.fst ++ calls.map Prod.snd).Pairwise Call.Before)
    (opens : ∀ os call, (os,call) ∈ calls → Opens os call.ask) : Comes done calls exec := by
  induction calls generalizing numbers done exec with
  | nil => exact .inr ⟨numbers,[],exec,rfl,rfl,by simpa using table⟩
  | cons item calls ih =>
    obtain ⟨os,call⟩ := item
    have fits : ∀ earlier ∈ done, earlier.1.Before call := by
      intro earlier listed
      exact (List.pairwise_append.mp ordered).2.2 _ (List.mem_map_of_mem listed) call (by simp)
    have opens' : ∀ os call, (os,call) ∈ calls → Opens os call.ask :=
      fun os call listed => opens os call (List.mem_cons_of_mem _ listed)
    rcases asks_fits table.ordered fits with none | ⟨first,one,before⟩
    · have absent : exec.openHandles.lookup call.pipe = .none := by rw [table.entries,none,entry]
      by_cases makes : Makes os call
      · exact .cons (perform_first absent makes) (ih (table.first fits none) (by simpa using ordered) opens')
      · have opening := opens os call List.mem_cons_self
        obtain ⟨wanted,refused⟩ : (call.ask = .readEnd ∨ call.ask = .writeEnd) ∧ os.allocPipe call.pipe ≠ .ok () := by
          simpa [Makes,opening] using makes
        cases answer : os.allocPipe call.pipe with
        | ok => exact absurd answer refused
        | error e => exact .refused wanted none absent answer
    · have parked : exec.openHandles.lookup call.pipe = some (first.parks call.pipe (numbers call.pipe)) := by
        rw [table.entries,one,entry]
      exact .cons (perform_second before parked) (ih (table.second fits one) (by simpa using ordered) opens')

theorem performAll_append {before after : List (Os × Call)} {exec middle : ExecInternal}
    {handed : List (Call × Option Handle)} {panic : Panic} (performs : performAll before exec = .ok (.ok handed,middle))
    (panics : performAll after middle = .error panic) : performAll (before ++ after) exec = .error panic := by
  induction before generalizing exec handed with
  | nil =>
    obtain ⟨-,rfl⟩ := pure_ok.mp performs
    exact panics
  | cons item before ih =>
    obtain ⟨handle,next,performed,rest⟩ := bind_ok.mp performs
    obtain ⟨handed',last,later,done⟩ := bind_ok.mp rest
    obtain ⟨-,rfl⟩ := pure_ok.mp done
    rw [List.cons_append,performAll,ok_bind performed,panic_bind (ih later)]

theorem performAll_panics {before after : List (Os × Call)} {exec : ExecInternal} {panic : Panic}
    (panics : performAll before exec = .error panic) : performAll (before ++ after) exec = .error panic := by
  induction before generalizing exec with
  | nil => cases panics
  | cons item before ih =>
    rcases bind_panicked.mp panics with now | ⟨handle,next,performed,rest⟩
    · rw [List.cons_append,performAll,panic_bind now]
    · rcases bind_panicked.mp rest with later | ⟨_,_,_,never⟩
      · rw [List.cons_append,performAll,ok_bind performed,panic_bind (ih later)]
      · cases never

theorem Table.new {exec : ExecInternal} (empty : exec.openHandles = ∅) : Table (fun _ => 0) [] exec := by
  refine ⟨by simp,by simp,by simp,?_,by simp⟩
  intro pipe
  rw [empty]
  rfl

theorem refused_panics {exec : ExecInternal} (empty : exec.openHandles = ∅) {calls : List (Os × Call)}
    (disciplined : Disciplined calls) (refused : Refused calls) :
    performAll calls exec = .error (.expect "alloc pipe failed") := by
  obtain ⟨before,os,call,after,e,rfl,⟨wanted,fresh⟩,answer⟩ := refused
  have ordered := disciplined.ordered
  rw [List.map_append,List.pairwise_append] at ordered
  rcases performAll_table (.new empty) before (by simpa using ordered.1)
      (fun os call listed => disciplined.opens os call (List.mem_append_left _ listed)) with
    ⟨_,_,_,_,_,_,_,_,panics⟩ | ⟨numbers,handed,middle,performs,same,table⟩
  · exact performAll_panics panics
  · apply performAll_append performs
    rw [List.nil_append] at table
    have none : asks call.pipe handed = [] := by
      rw [asks_eq_nil]
      intro item listed
      exact fresh _ (same ▸ List.mem_map_of_mem listed)
    have absent : middle.openHandles.lookup call.pipe = .none := by rw [table.entries,none,entry]
    rw [performAll,panic_bind (perform_refused wanted absent answer)]

theorem asks_both {done : List (Call × Option Handle)} {pipe : GenericPipe}
    (ordered : (done.map Prod.fst).Pairwise Call.Before) {one other : Ask} (different : one ≠ other)
    (listed : one ∈ asks pipe done) (listed' : other ∈ asks pipe done) :
    asks pipe done = [one,other] ∧ one.Before other ∨ asks pipe done = [other,one] ∧ other.Before one := by
  rcases asks_shape pipe ordered with shape | ⟨first,shape⟩ | ⟨first,second,shape,before⟩
  · simp [shape] at listed
  · rw [shape,List.mem_singleton] at listed listed'
    exact absurd (listed.trans listed'.symm) different
  · rw [shape] at listed listed'
    simp only [List.mem_cons,List.not_mem_nil,or_false] at listed listed'
    rcases listed with rfl | rfl <;> rcases listed' with rfl | rfl
    · exact absurd rfl different
    · exact .inl ⟨shape,before⟩
    · exact .inr ⟨shape,before⟩
    · exact absurd rfl different

section Handles
variable {numbers : GenericPipe → Nat} {handed : List (Call × Option Handle)} {final : ExecInternal}

/-- What a call handed out goes back to the first that was asked of its id. -/
theorem Table.origin (table : Table numbers handed final) {call : Call} {handle : Option Handle}
    (listed : (call,handle) ∈ handed) : ∃ first, first ∈ (asks call.pipe handed).head? ∧
      handle = call.ask.hands (first.origin call.pipe (numbers call.pipe)) := by
  have asked : call.ask ∈ asks call.pipe handed := mem_asks.mpr ⟨handle,listed⟩
  cases shape : asks call.pipe handed with
  | nil => simp [shape] at asked
  | cons first rest => exact ⟨first,rfl,table.handles call handle listed first (by simp [shape])⟩

theorem Table.numbered (table : Table numbers handed final) {call : Call} {handle : Handle}
    (listed : (call,some handle) ∈ handed) : number handle = numbers call.pipe := by
  obtain ⟨first,-,shown⟩ := table.origin listed
  obtain ⟨pipe,ask⟩ := call
  cases ask <;> cases first <;> simp_all [Ask.hands,Ask.origin,number]

/-- Of two things that were asked of an id, the one that cannot be the second is what the other's
end is an end of. -/
theorem Table.later (table : Table numbers handed final) {pipe : GenericPipe} {first second : Ask}
    {opened handle : Option Handle} (listed : (⟨pipe,first⟩,opened) ∈ handed)
    (listed' : (⟨pipe,second⟩,handle) ∈ handed)
    (different : first ≠ second) (never : ¬second.Before first) :
    handle = second.hands (first.origin pipe (numbers pipe)) := by
  obtain ⟨head,heads,shown⟩ := table.origin listed'
  rcases asks_both table.ordered different (mem_asks.mpr ⟨_,listed⟩) (mem_asks.mpr ⟨_,listed'⟩) with
    ⟨shape,-⟩ | ⟨-,before⟩
  · rw [shape] at heads
    cases heads
    exact shown
  · exact absurd before never

theorem Table.ends (table : Table numbers handed final) {pipe : GenericPipe} {read write : Option Handle}
    (listed : (⟨pipe,.readEnd⟩,read) ∈ handed) (listed' : (⟨pipe,.writeEnd⟩,write) ∈ handed) :
    asks pipe handed = [.readEnd,.writeEnd] ∨ asks pipe handed = [.writeEnd,.readEnd] :=
  (asks_both table.ordered (by simp) (mem_asks.mpr ⟨_,listed⟩) (mem_asks.mpr ⟨_,listed'⟩)).imp And.left And.left

theorem Table.paired (table : Table numbers handed final) : Paired handed final := by
  refine ⟨?_,?_,?_,?_,?_,?_⟩
  · rintro ⟨pipe,ask⟩ handle listed wanted
    obtain ⟨first,-,rfl⟩ := table.origin listed
    rcases wanted with rfl | rfl <;> rfl
  · intro pipe read write listed listed'
    obtain ⟨first,heads,shown⟩ := table.origin listed
    obtain ⟨first',heads',shown'⟩ := table.origin listed'
    rcases table.ends listed listed' with shape | shape
    · rw [shape] at heads heads'
      cases heads
      cases heads'
      exact ⟨Option.some.inj (shown.trans shown'.symm),_,Option.some.inj shown⟩
    · rw [shape] at heads heads'
      cases heads
      cases heads'
      exact ⟨Option.some.inj (shown.trans shown'.symm),_,Option.some.inj shown⟩
  · intro pipe path opened handle listed listed'
    exact ⟨_,Option.some.inj (table.later listed listed' (by simp) (by simp [Ask.Before]))⟩
  · intro pipe path opened handle listed listed'
    exact ⟨_,Option.some.inj (table.later listed listed' (by simp) (by simp [Ask.Before]))⟩
  · intro call other handle handle' listed listed' different same
    rw [table.numbered listed,table.numbered listed'] at same
    exact different (table.apart _ listed _ listed' same)
  · intro pipe read write listed listed'
    rw [table.entries]
    rcases table.ends listed listed' with shape | shape
    · rw [shape]
      rfl
    · rw [shape]
      rfl

end Handles

/-- The calls come to pipes and files of their ids, unless the system refuses a pipe. -/
theorem ends_paired (exec : ExecInternal) (empty : exec.openHandles = ∅) (calls : List (Os × Call))
    (disciplined : Disciplined calls) :
    (Refused calls ∧ performAll calls exec = .error (.expect "alloc pipe failed")) ∨
      (¬Refused calls ∧ ∃ handed final, performAll calls exec = .ok (.ok handed,final) ∧
        handed.map Prod.fst = calls.map Prod.snd ∧ Paired handed final) := by
  rcases performAll_table (.new empty) calls (by simpa using disciplined.ordered) disciplined.opens with
    ⟨before,os,call,after,e,shape,allocates,answer,panics⟩ | ⟨numbers,handed,final,performs,same,table⟩
  · exact .inl ⟨⟨before,os,call,after,e,shape,by simpa using allocates,answer⟩,panics⟩
  · refine .inr ⟨?_,handed,final,performs,same,table.paired⟩
    intro refused
    rw [refused_panics empty disciplined refused] at performs
    cases performs

def mixed : List (Os × Call) :=
  [(.working,⟨⟨1⟩,.readEnd⟩),(.working,⟨⟨3⟩,.openInputFile "in"⟩),(.working,⟨⟨2⟩,.writeEnd⟩),
    (.working,⟨⟨1⟩,.writeEnd⟩),(.working,⟨⟨3⟩,.readEnd⟩)]

theorem mixed_paired :
    (Refused mixed ∧ performAll mixed ExecInternal.new = .error (.expect "alloc pipe failed")) ∨
      (¬Refused mixed ∧ ∃ handed final, performAll mixed ExecInternal.new = .ok (.ok handed,final) ∧
        handed.map Prod.fst = mixed.map Prod.snd ∧ Paired handed final) := by
  apply ends_paired ExecInternal.new rfl mixed
  constructor
  · simp [mixed,Call.Before,Ask.Before]
  · intro os call listed
    simp only [mixed,List.mem_cons,Prod.mk.injEq,List.not_mem_nil,or_false] at listed
    rcases listed with ⟨rfl,rfl⟩ | ⟨rfl,rfl⟩ | ⟨rfl,rfl⟩ | ⟨rfl,rfl⟩ | ⟨rfl,rfl⟩ <;> simp [Opens,Os.working]

/-- The system refuses the only pipe that is asked for. -/
theorem read_end_panics :
    let os : Os := { Os.working with allocPipe := fun _ => .error ⟨.other,"Too many open files"⟩ }
    Disciplined [(os,⟨⟨1⟩,.readEnd⟩)] ∧
      performAll [(os,⟨⟨1⟩,.readEnd⟩)] ExecInternal.new = .error (.expect "alloc pipe failed") := by
  refine ⟨⟨by simp,by simp [Opens]⟩,?_⟩
  rfl

end Nak.PipeEnds
