import Nak.ExecEvents

/-! The ends of the pipes that commands are given. Running a command takes the three ends it
names out of `open_handles`, opening the pipes that are not there, and touches no other. -/
namespace Nak
open Library Action

/-- The descriptor is on the pipe, if it is on a pipe at all. -/
def Handle.Of (handle : Handle) (pipe : GenericPipe) : Prop := ∀ id, handle.id? = some id → id = pipe

namespace ExecInternal
variable {os : Os} {exec next : ExecInternal}

abbrev Handles := FiniteMap GenericPipe Pair

def Named (handles : Handles) : Prop :=
  ∀ pipe pair, handles.lookup pipe = some pair →
    (∀ input, pair.read = some input → input.handle.Of pipe) ∧
    ∀ output, pair.write = some output → output.handle.Of pipe

def Taken (handles : Handles) (pipe : GenericPipe) : Prop := ∃ read, handles.lookup pipe = some ⟨read,none⟩

/-- What may have happened to the ends while `inputs` and `outputs` were asked for. -/
structure Ends (inputs outputs : GenericPipe → Prop) (handles next : Handles) : Prop where
  named : Named handles → Named next
  kept : ∀ pipe ∈ handles, pipe ∈ next
  opened : ∀ pipe ∈ next, pipe ∈ handles ∨ inputs pipe ∨ outputs pipe
  taken : ∀ pipe, Taken next pipe → Taken handles pipe ∨ outputs pipe

namespace Ends
variable {inputs outputs : GenericPipe → Prop} {handles middle last : Handles}

theorem refl : Ends inputs outputs handles handles where
  named := id
  kept _ := id
  opened _ := Or.inl
  taken _ := Or.inl

theorem trans (first : Ends inputs outputs handles middle) (second : Ends inputs outputs middle last) :
    Ends inputs outputs handles last where
  named named := second.named (first.named named)
  kept pipe member := second.kept pipe (first.kept pipe member)
  opened pipe member := (second.opened pipe member).elim (first.opened pipe) Or.inr
  taken pipe taken := (second.taken pipe taken).elim (first.taken pipe) Or.inr

theorem mono {inputs' outputs' : GenericPipe → Prop} (ends : Ends inputs outputs handles last)
    (more : ∀ pipe, inputs pipe → inputs' pipe) (more' : ∀ pipe, outputs pipe → outputs' pipe) :
    Ends inputs' outputs' handles last where
  named := ends.named
  kept := ends.kept
  opened pipe member := (ends.opened pipe member).imp_right (Or.imp (more pipe) (more' pipe))
  taken pipe taken := (ends.taken pipe taken).imp_right (more' pipe)

theorem insert {pipe : GenericPipe} {pair : Pair} (asked : pipe ∈ handles ∨ inputs pipe ∨ outputs pipe)
    (named : Named handles → (∀ input, pair.read = some input → input.handle.Of pipe) ∧
      ∀ output, pair.write = some output → output.handle.Of pipe)
    (taken : pair.write = none → Taken handles pipe ∨ outputs pipe) :
    Ends inputs outputs handles (handles.insert pipe pair) where
  named := by
    intro before other found lookup
    rw [FiniteMap.lookup_insert_if] at lookup
    split at lookup
    · rename_i same
      subst same
      obtain rfl := Option.some.inj lookup
      exact named before
    · exact before other found lookup
  kept other member := Finmap.mem_insert.mpr (Or.inr member)
  opened := by
    intro other member
    rcases Finmap.mem_insert.mp member with same | old
    · subst same
      exact asked
    · exact Or.inl old
  taken := by
    intro other isTaken
    obtain ⟨read,lookup⟩ := isTaken
    rw [FiniteMap.lookup_insert_if] at lookup
    split at lookup
    · rename_i same
      subst same
      obtain rfl := Option.some.inj lookup
      exact taken rfl
    · exact Or.inl ⟨read,lookup⟩

end Ends

theorem fromPipe_input (number : Nat) (pipe : GenericPipe) : (InputPipe.fromPipe number pipe).handle.Of pipe := by
  intro id same
  exact (Option.some.inj same).symm

theorem fromPipe_output (number : Nat) (pipe : GenericPipe) : (OutputPipe.fromPipe number pipe).handle.Of pipe := by
  intro id same
  exact (Option.some.inj same).symm

structure SameBut (exec next : ExecInternal) : Prop where
  machine : next.machine = exec.machine
  effects : next.effects = exec.effects
  waitingEdits : next.waitingEdits = exec.waitingEdits

theorem writeEnd_ends {pipe : WritePipe} {handle : OutputPipe} (ok : writeEnd os pipe exec = .ok (.ok handle,next)) :
    SameBut exec next ∧ Ends (fun _ => False) (· = pipe.toGeneric) exec.openHandles next.openHandles ∧
      (Named exec.openHandles → handle.handle.Of pipe.toGeneric) := by
  rcases writeEnd_cases ok with ⟨read,found,rfl⟩ | ⟨absent,rfl,rfl⟩
  · refine ⟨⟨rfl,rfl,rfl⟩,?_,fun named => (named _ _ found).2 handle rfl⟩
    refine Ends.insert (Or.inr (Or.inr ?_)) ?_ ?_
    · rfl
    · intro named
      exact ⟨(named _ _ found).1,nofun⟩
    · exact fun _ => Or.inr rfl
  · refine ⟨⟨rfl,rfl,rfl⟩,?_,fun _ => fromPipe_output _ _⟩
    refine Ends.insert (Or.inr (Or.inr ?_)) ?_ ?_
    · rfl
    · intro _
      refine ⟨?_,nofun⟩
      intro input same
      obtain rfl := Option.some.inj same
      exact fromPipe_input _ _
    · exact fun _ => Or.inr rfl

theorem readEnd_cases {pipe : ReadPipe} {handle : InputPipe} (ok : readEnd os pipe exec = .ok (.ok handle,next)) :
    (∃ write, exec.openHandles.lookup pipe.toGeneric = some ⟨some handle,write⟩ ∧
      next = { exec with openHandles := exec.openHandles.insert pipe.toGeneric ⟨none,write⟩ }) ∨
    (pipe.toGeneric ∉ exec.openHandles ∧ handle = .fromPipe exec.opened pipe.toGeneric ∧ next = { exec with
      opened := exec.opened + 1
      openHandles := exec.openHandles.insert pipe.toGeneric
        ⟨none,some (.fromPipe exec.opened pipe.toGeneric)⟩ }) := by
  rw [readEnd_eq] at ok
  rcases takeEnd_cases ok with ⟨⟨_,write⟩,found,rfl,rfl⟩ | new
  · exact Or.inl ⟨write,found,rfl⟩
  · exact Or.inr new

theorem readEnd_ends {pipe : ReadPipe} {handle : InputPipe} (ok : readEnd os pipe exec = .ok (.ok handle,next)) :
    SameBut exec next ∧ Ends (· = pipe.toGeneric) (fun _ => False) exec.openHandles next.openHandles ∧
      (Named exec.openHandles → handle.handle.Of pipe.toGeneric) ∧ pipe.toGeneric ∈ next.openHandles := by
  rcases readEnd_cases ok with ⟨write,found,rfl⟩ | ⟨absent,rfl,rfl⟩
  · refine ⟨⟨rfl,rfl,rfl⟩,?_,fun named => (named _ _ found).1 handle rfl,Finmap.mem_insert.mpr (Or.inl rfl)⟩
    refine Ends.insert (Or.inr (Or.inl ?_)) ?_ ?_
    · rfl
    · intro named
      exact ⟨nofun,(named _ _ found).2⟩
    · intro same
      obtain rfl := same
      exact Or.inl ⟨some handle,found⟩
  · refine ⟨⟨rfl,rfl,rfl⟩,?_,fun _ => fromPipe_input _ _,Finmap.mem_insert.mpr (Or.inl rfl)⟩
    refine Ends.insert (Or.inr (Or.inl ?_)) ?_ ?_
    · rfl
    · intro _
      refine ⟨nofun,?_⟩
      intro output same
      obtain rfl := Option.some.inj same
      exact fromPipe_output _ _
    · exact nofun

end ExecInternal
end Nak
