import Nak.References

/-! The ids of remotes. One counter serves remotes, pipes, files and processes, and it
starts at the number of the root, which is not drawn from it. -/
namespace Nak.RemoteIds
open Library Action Frames

variable {trans : Transport Error} {endpoint next : Endpoint StackedRemotes}

structure Attempt where
  trans : Transport Error
  operation : Operation

def perform (trans : Transport Error) : Operation → Shell Answer
  | .remote remote command => do pure (.remote (← Endpoint.remote trans remote command))
  | .pipe => do pure (.pipe (← Endpoint.pipe))
  | .command remote command blockFor pipes => do
    pure (.process (← Endpoint.command trans remote command blockFor pipes))
  | .openOutputFile remote path => do pure (.output (← Endpoint.openOutputFile trans remote path))
  | .openInputFile remote path => do pure (.input (← Endpoint.openInputFile trans remote path))
  | .closeRemote remote => do
    Endpoint.closeRemote trans remote
    pure .done
  | .closeProcess id => do
    Endpoint.closeProcess trans id
    pure .done
  | .finishEdit commandId editId data => do
    Endpoint.finishEdit trans commandId editId data
    pure .done
  | .pipeRead remote id readUpTo => do
    Endpoint.pipeRead trans remote id readUpTo
    pure .done
  | .pipeBeginRead remote id => do
    Endpoint.pipeBeginRead trans remote id
    pure .done
  | .receive terminal message => do
    Endpoint.receive (StackedRemotes.handler terminal trans) message
    pure .done
  | .update change => do
    StackedRemotes.update change
    pure .done

def system : System (Endpoint StackedRemotes) (Attempt × Except Error Answer) :=
  .ofFunction (Endpoint.new StackedRemotes.new) fun endpoint attempt => perform attempt.trans attempt.operation endpoint

def Draws : Operation → Prop
  | .remote _ _ => True
  | .pipe => True
  | .command _ _ _ _ => True
  | .openOutputFile _ _ => True
  | .openInputFile _ _ => True
  | _ => False

def refusing (id : Nat) (error : Error) : Transport Error := fun request =>
  match request.message with
  | .beginRemote other _ => if other = id then .error error else .ok ()
  | _ => .ok ()

/-- The call sends a `BeginRemote` with this id: it fails where that one is refused. -/
def Uses (endpoint : Endpoint StackedRemotes) (parent : RemoteId) (command : Command) (id : Nat) : Prop :=
  ∃ error next, Endpoint.remote (refusing id error) parent command endpoint = .ok (.error error,next)

/-- Beginning a remote uses an id that names no remote yet, however its send is answered. -/
structure Fresh (endpoint : Endpoint StackedRemotes) (parent : RemoteId) (command : Command) : Prop where
  unused : ∀ id, Uses endpoint parent command id → (⟨id⟩ : RemoteId) ∉ endpoint.remotes
  other : ∀ id, Uses endpoint parent command id → (⟨id⟩ : RemoteId) ≠ Endpoint.root
  kept : ∀ (trans : Transport Error) result next, Endpoint.remote trans parent command endpoint = .ok (result,next) →
    ∀ id state, endpoint.remotes.lookup id = some state → next.remotes.lookup id = some state
  passes : ∀ trans : Transport Error, Endpoint.remote trans parent command endpoint ≠ .error .assertion

theorem remote_opened {parent : RemoteId} (opened : parent ∈ endpoint.remotes) (command : Command) :
    Endpoint.remote trans parent command endpoint =
      match trans ⟨parent.val,.beginRemote endpoint.ids.nextId command⟩ with
      | .error error => .ok (.error error,{ endpoint with ids := ⟨endpoint.ids.nextId + 1⟩ })
      | .ok () =>
        if endpoint.remotes.lookup ⟨endpoint.ids.nextId⟩ = none then
          .ok (.ok ⟨endpoint.ids.nextId⟩,{ endpoint with
            ids := ⟨endpoint.ids.nextId + 1⟩
            sent := endpoint.sent ++ [⟨parent.val,.beginRemote endpoint.ids.nextId command⟩]
            remotes := endpoint.remotes.insert ⟨endpoint.ids.nextId⟩ ⟨some parent⟩ })
        else .error .assertion := by
  cases answer : trans ⟨parent.val,.beginRemote endpoint.ids.nextId command⟩ with
  | error error => exact Endpoint.remote_refused opened answer
  | ok done =>
    unfold Endpoint.remote
    rw [ok_bind (Endpoint.assertOpen_passes opened),ok_bind (Endpoint.nextId_draws endpoint)]
    rw [ok_bind (Endpoint.send_taken answer),get_bind,modify_bind]
    by_cases absent : endpoint.remotes.lookup ⟨endpoint.ids.nextId⟩ = none
    · exact (lift_continues (Outcome.assert_true absent)).trans (if_pos absent).symm
    · exact (lift_panics (Outcome.assert_false absent)).trans (if_neg absent).symm

theorem uses_iff {parent : RemoteId} (opened : parent ∈ endpoint.remotes) (command : Command) (id : Nat) :
    Uses endpoint parent command id ↔ id = endpoint.ids.nextId := by
  constructor
  · intro uses
    obtain ⟨error,next,failed⟩ := uses
    rw [remote_opened opened] at failed
    by_contra different
    simp only [refusing,if_neg (Ne.symm different)] at failed
    split at failed <;> cases failed
  · intro same
    subst same
    refine ⟨⟨.other,""⟩,{ endpoint with ids := ⟨endpoint.ids.nextId + 1⟩ },?_⟩
    rw [remote_opened opened]
    simp only [refusing,if_pos]

theorem fresh_of_absent {parent : RemoteId} (opened : parent ∈ endpoint.remotes) (command : Command)
    (absent : (⟨endpoint.ids.nextId⟩ : RemoteId) ∉ endpoint.remotes) (apart : 0 < endpoint.ids.nextId) :
    Fresh endpoint parent command where
  unused id uses := by
    rw [(uses_iff opened command id).mp uses]
    exact absent
  other id uses same := by
    rw [(uses_iff opened command id).mp uses] at same
    exact absurd (congrArg RemoteId.val same) apart.ne'
  kept trans result next ok id state found := by
    rw [remote_opened opened] at ok
    split at ok
    · cases ok
      exact found
    · split at ok
      · cases ok
        rw [Finmap.lookup_insert_of_ne,found]
        intro same
        exact absent (same ▸ FiniteMap.mem_of_lookup found)
      · cases ok
  passes trans := by
    rw [remote_opened opened]
    split
    · nofun
    · rw [if_pos (Finmap.lookup_eq_none.mpr absent)]
      nofun

/-- The counter is untouched, the root stays, and new remotes are below the counter. -/
structure Held (endpoint next : Endpoint StackedRemotes) : Prop where
  ids : next.ids = endpoint.ids
  root : endpoint.remotes.lookup Endpoint.root = some ⟨none⟩ → next.remotes.lookup Endpoint.root = some ⟨none⟩
  below : ∀ id ∈ next.remotes, id ∈ endpoint.remotes ∨ id.val < endpoint.ids.nextId

instance : IsPreorder (Endpoint StackedRemotes) Held where
  refl _ := ⟨rfl,id,fun _ => Or.inl⟩
  trans first second third earlier later := by
    refine ⟨later.ids.trans earlier.ids,later.root ∘ earlier.root,fun id member => ?_⟩
    rcases later.below id member with old | new
    · exact earlier.below id old
    · exact Or.inr (earlier.ids ▸ new)

theorem held_same (ids : next.ids = endpoint.ids) (remotes : next.remotes = endpoint.remotes) : Held endpoint next :=
  ⟨ids,fun root => by rw [remotes,root],fun id member => Or.inl (remotes ▸ member)⟩

theorem held_spared : Spared Held := ⟨fun _ _ => held_same rfl rfl,fun _ _ => held_same rfl rfl⟩

theorem closeRemote_held (remote : RemoteId) : Keeps Held (Endpoint.closeRemote trans remote) where
  after := by
    intro endpoint result next ok
    unfold Endpoint.closeRemote at ok
    rw [get_bind] at ok
    obtain ⟨⟨parent?⟩,found,ok⟩ := lift_bind_ok.mp ok
    rw [modify_bind] at ok
    obtain ⟨parent,named,sent⟩ := lift_bind_ok.mp ok
    have found := (Outcome.expect_ok _ _ _).mp found
    obtain rfl : parent? = some parent := (Outcome.expect_ok _ _ _).mp named
    have erased : Held endpoint { endpoint with remotes := endpoint.remotes.erase remote } := by
      refine ⟨rfl,fun root => ?_,fun id member => Or.inl (Finmap.mem_erase.mp member).2⟩
      rw [Finmap.lookup_erase_ne,root]
      intro same
      rw [← same,root] at found
      cases found
    exact IsTrans.trans _ _ _ erased ((held_spared.send _ _).after sent)

theorem drawn_ok {α : Type} {remote : RemoteId} {act : Nat → Shell α} {result : Except Error α}
    (ok : (do Endpoint.assertOpen remote; let id ← Endpoint.nextId; act id : Shell α) endpoint = .ok (result,next)) :
    remote ∈ endpoint.remotes ∧
      act endpoint.ids.nextId { endpoint with ids := ⟨endpoint.ids.nextId + 1⟩ } = .ok (result,next) := by
  unfold Endpoint.assertOpen at ok
  obtain ⟨_,opened,ok⟩ := lift_bind_ok.mp ok
  exact ⟨(Outcome.assert_ok _ _).mp opened,ok⟩

theorem remote_held {parent : RemoteId} {command : Command} {result : Except Error RemoteId}
    (ok : Endpoint.remote trans parent command endpoint = .ok (result,next)) :
    Held { endpoint with ids := ⟨endpoint.ids.nextId + 1⟩ } next := by
  rw [remote_opened (drawn_ok ok).1] at ok
  split at ok
  · cases ok
    exact held_same rfl rfl
  · split at ok
    · rename_i absent
      cases ok
      refine ⟨rfl,fun root => ?_,fun id member => ?_⟩
      · rw [Finmap.lookup_insert_of_ne,root]
        intro same
        rw [← same,root] at absent
        cases absent
      · rcases Finmap.mem_insert.mp member with rfl | old
        · exact Or.inr (Nat.lt_succ_self _)
        · exact Or.inl old
    · cases ok

theorem openFile_held {α : Type} (remote : RemoteId) (message : Nat → RemoteRequest) (opened : Nat → α) (id : Nat) :
    Keeps Held (do
      .modify fun endpoint => { endpoint with pipes := insert id endpoint.pipes }
      Endpoint.send trans remote (message id)
      pure (opened id) : Shell α) := by
  refine (Keeps.modify _ fun _ => ?_).bind fun _ => (held_spared.send _ _).bind fun _ => .pure _
  exact held_same rfl rfl

theorem answered {α : Type} {act : Shell α} {answer : α → Answer} {result : Except Error Answer}
    (ok : (do pure (answer (← act)) : Shell Answer) endpoint = .ok (result,next)) :
    ∃ done, act endpoint = .ok (done,next) := by
  cases result with
  | ok value =>
    obtain ⟨done,_,acted,last⟩ := bind_ok.mp ok
    obtain ⟨_,rfl⟩ := pure_ok.mp last
    exact ⟨_,acted⟩
  | error error =>
    rcases bind_raised.mp ok with raised | ⟨_,_,_,last⟩
    · exact ⟨_,raised⟩
    · cases last

theorem perform_drawn {operation : Operation} (draws : Draws operation) {result : Except Error Answer}
    (ok : perform trans operation endpoint = .ok (result,next)) :
    Held { endpoint with ids := ⟨endpoint.ids.nextId + 1⟩ } next := by
  cases operation with
  | remote remote command =>
    obtain ⟨_,acted⟩ := answered ok
    exact remote_held acted
  | pipe =>
    obtain ⟨_,acted⟩ := answered ok
    cases acted
    exact held_same rfl rfl
  | command remote command blockFor pipes =>
    obtain ⟨_,acted⟩ := answered ok
    refine ((held_spared.send _ _).bind fun _ => (Keeps.modify _ fun _ => ?_).bind fun _ => .pure _).after
      (drawn_ok acted).2
    exact held_same rfl rfl
  | openOutputFile remote path =>
    obtain ⟨_,acted⟩ := answered ok
    exact (openFile_held remote (.openOutputFile · path) WritePipe.mk _).after (drawn_ok acted).2
  | openInputFile remote path =>
    obtain ⟨_,acted⟩ := answered ok
    exact (openFile_held remote (.openInputFile · path) ReadPipe.mk _).after (drawn_ok acted).2
  | closeRemote | closeProcess | finishEdit | pipeRead | pipeBeginRead | receive | update => exact draws.elim

theorem perform_held {operation : Operation} (other : ¬Draws operation) {result : Except Error Answer}
    (ok : perform trans operation endpoint = .ok (result,next)) : Held endpoint next := by
  have done {act : Shell Unit} (keeps : Keeps Held act) : Keeps Held (do act; pure .done : Shell Answer) :=
    keeps.bind fun _ => .pure _
  cases operation with
  | remote | pipe | command | openOutputFile | openInputFile => exact absurd trivial other
  | closeRemote remote => exact (done (closeRemote_held remote)).after ok
  | closeProcess id =>
    refine (done (Keeps.get.bind fun _ => (Keeps.lift _).bind fun _ => ?_)).after ok
    refine (Keeps.modify _ fun _ => ?_).bind fun _ => (Spared.assertOpen _).bind fun _ => held_spared.send _ _
    exact held_same rfl rfl
  | finishEdit commandId editId data => exact (done (held_spared.finishEdit _ _ _)).after ok
  | pipeRead remote id readUpTo => exact (done (held_spared.send _ _)).after ok
  | pipeBeginRead remote id => exact (done (held_spared.send _ _)).after ok
  | receive terminal message => exact (done (held_spared.receive _ _)).after ok
  | update change => exact (done (held_spared.update _)).after ok

/-- Every id of a remote but the root's has been drawn. -/
structure Numbered (trace : List (Attempt × Except Error Answer)) (endpoint : Endpoint StackedRemotes) : Prop where
  drawn : 0 < endpoint.ids.nextId ↔ ∃ performed ∈ trace, Draws performed.1.operation
  root : endpoint.remotes.lookup Endpoint.root = some ⟨none⟩
  below : ∀ id ∈ endpoint.remotes, id = Endpoint.root ∨ id.val < endpoint.ids.nextId

theorem numbered_step {trace : List (Attempt × Except Error Answer)} (numbered : Numbered trace endpoint)
    {performed : Attempt × Except Error Answer} (taken : system.step endpoint performed next) :
    Numbered (trace ++ [performed]) next := by
  have later : (∃ one ∈ trace ++ [performed], Draws one.1.operation) ↔
      (∃ one ∈ trace, Draws one.1.operation) ∨ Draws performed.1.operation := by
    simp [or_and_right,exists_or]
  by_cases draws : Draws performed.1.operation
  · have held := perform_drawn draws taken
    refine ⟨?_,held.root numbered.root,fun id member => ?_⟩
    · rw [held.ids,later]
      exact ⟨fun _ => Or.inr draws,fun _ => Nat.succ_pos _⟩
    · rw [held.ids]
      rcases held.below id member with old | new
      · exact (numbered.below id old).imp_right fun below => Nat.lt_succ_of_lt below
      · exact Or.inr new
  · have held := perform_held draws taken
    refine ⟨?_,held.root numbered.root,fun id member => ?_⟩
    · rw [held.ids,later,numbered.drawn]
      simp [draws]
    · rw [held.ids]
      rcases held.below id member with old | new
      · exact numbered.below id old
      · exact Or.inr new

theorem run_numbered {trace : List (Attempt × Except Error Answer)} (run : system.Run trace endpoint) :
    Numbered trace endpoint := by
  refine run.invariant Numbered ?_ fun _ _ _ _ _ numbered taken => numbered_step numbered taken
  intro endpoint start
  obtain rfl := start
  refine ⟨by simp [Endpoint.new,Ids.new],Finmap.lookup_singleton_eq,fun id member => Or.inl ?_⟩
  exact (Finmap.mem_singleton _ _ _).mp member

/-- After any operations, a remote is begun under an unused id exactly when one of them has
drawn an id before. -/
theorem fresh_iff_drawn {trace : List (Attempt × Except Error Answer)} (run : system.Run trace endpoint)
    {parent : RemoteId} (opened : parent ∈ endpoint.remotes) (command : Command) :
    Fresh endpoint parent command ↔ ∃ performed ∈ trace, Draws performed.1.operation := by
  have numbered := run_numbered run
  rw [← numbered.drawn]
  constructor
  · intro fresh
    by_contra zero
    have same : (⟨endpoint.ids.nextId⟩ : RemoteId) = Endpoint.root :=
      congrArg RemoteId.mk (Nat.eq_zero_of_not_pos zero)
    exact fresh.other _ ((uses_iff opened command _).mpr rfl) same
  · intro positive
    refine fresh_of_absent opened command (fun member => ?_) positive
    rcases numbered.below _ member with same | below
    · exact positive.ne' (congrArg RemoteId.val same)
    · exact Nat.lt_irrefl _ below

/-- The shell draws a pipe before it begins its first remote. -/
theorem fresh_iff_drawn_piped : ∃ trace endpoint, system.Run trace endpoint ∧
    Fresh endpoint Endpoint.root (.unknown "ssh" []) := by
  have piped : system.Run [(⟨References.trans,.pipe⟩,.ok (.pipe (⟨0⟩,⟨0⟩)))] _ :=
    .step (.initial rfl) (show perform References.trans .pipe _ = _ from rfl)
  exact ⟨_,_,piped,(fresh_iff_drawn piped (by decide) _).mpr ⟨_,List.mem_singleton.mpr rfl,trivial⟩⟩

/-- A remote begun first is given the number of the root: the request is sent, then the
assert fails. -/
theorem fresh_fails : system.Run [] (Endpoint.new StackedRemotes.new) ∧
    Uses (Endpoint.new StackedRemotes.new) Endpoint.root (.unknown "ssh" []) 0 ∧
    Endpoint.remote References.trans Endpoint.root (.unknown "ssh" []) (Endpoint.new StackedRemotes.new) =
      .error .assertion ∧
    ¬Fresh (Endpoint.new StackedRemotes.new) Endpoint.root (.unknown "ssh" []) := by
  have opened : Endpoint.root ∈ (Endpoint.new StackedRemotes.new).remotes := by decide
  have used := (uses_iff opened (.unknown "ssh" []) 0).mpr rfl
  exact ⟨.initial rfl,used,by rfl,fun fresh => fresh.other 0 used rfl⟩

end Nak.RemoteIds
