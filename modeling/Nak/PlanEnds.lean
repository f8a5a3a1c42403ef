import Nak.Library.Log
import Nak.OneLoop
import Nak.PlanBuilder

/-! Who is given the ends of a plan's pipes. The builder and the loop that carries the plan
out both number the pipes for themselves; a list of the ends that are still free is what
both agree on. -/
namespace Nak
open Library Action Parse

inductive Side where
  | read
  | write
  deriving DecidableEq, Repr

/-- Which ends of each pipe are still free, the read end first. -/
abbrev Ends : Type := List (Bool × Bool)

namespace Ends

def isOpen : Side → Bool × Bool → Bool
  | .read, ends => ends.1
  | .write, ends => ends.2

def close : Side → Bool × Bool → Bool × Bool
  | .read, ends => (false,ends.2)
  | .write, ends => (ends.1,false)

def take (side : Side) (ends : Ends) (index : Nat) : Option Ends := do
  let pair ← ends[index]?
  if isOpen side pair then some (ends.set index (close side pair)) else none

def step (ends : Ends) : Step → Option Ends
  | .pipe => some (ends ++ [(true,true)])
  | .remote _ (.openOutputFile _) => some (ends ++ [(false,true)])
  | .remote _ (.run _ process) => do
    let ends ← take .write ends process.stdout
    let ends ← take .write ends process.stderr
    take .read ends process.stdin
  | _ => none

def Free (side : Side) (ends : Ends) (index : Nat) : Prop := (ends[index]?.map (isOpen side)) = some true

def Spent (side : Side) (ends : Ends) (index : Nat) : Prop := (ends[index]?.map (isOpen side)) = some false

variable {side other : Side} {ends next : Ends} {index place : Nat}

theorem free_lt (free : Free side ends index) : index < ends.length := by
  by_contra beyond
  rw [Free,List.getElem?_eq_none (Nat.le_of_not_lt beyond)] at free
  cases free

theorem take_ok (free : Free side ends index) : ∃ next, take side ends index = some next := by
  obtain ⟨pair,found,opened⟩ := Option.map_eq_some_iff.mp free
  exact ⟨ends.set index (close side pair),by simp [take,found,opened]⟩

theorem take_some (taken : take side ends index = some next) : ∃ pair, ends[index]? = some pair ∧
    isOpen side pair = true ∧ next = ends.set index (close side pair) := by
  obtain ⟨pair,found,taken⟩ := Option.bind_eq_some_iff.mp taken
  split at taken
  · rename_i opened
    exact ⟨pair,found,opened,(Option.some.inj taken).symm⟩
  · cases taken

theorem take_length (taken : take side ends index = some next) : next.length = ends.length := by
  obtain ⟨pair,_,_,rfl⟩ := take_some taken
  exact List.length_set

theorem take_isOpen (taken : take side ends index = some next) (other : Side) (place : Nat) :
    next[place]?.map (isOpen other) =
      if other = side ∧ place = index then some false else ends[place]?.map (isOpen other) := by
  obtain ⟨pair,found,_,rfl⟩ := take_some taken
  by_cases same : place = index
  · subst same
    have within := (List.getElem?_eq_some_iff.mp found).1
    rw [List.getElem?_set_self within,found]
    cases side <;> cases other <;> simp [isOpen,close]
  · rw [List.getElem?_set_ne (Ne.symm same),if_neg fun both => same both.2]

theorem take_free (taken : take side ends index = some next) :
    Free other next place ↔ Free other ends place ∧ ¬(other = side ∧ place = index) := by
  rw [Free,take_isOpen taken,Free]
  split <;> simp_all

theorem take_spent (taken : take side ends index = some next) :
    Spent other next place ↔ Spent other ends place ∨ other = side ∧ place = index := by
  rw [Spent,take_isOpen taken,Spent]
  split <;> simp_all

theorem take_unspent (taken : take side ends index = some next) : ¬Spent side ends index := by
  obtain ⟨pair,found,opened,_⟩ := take_some taken
  simp [Spent,found,opened]

theorem append_isOpen (pair : Bool × Bool) (within : place < ends.length) :
    (ends ++ [pair])[place]? = ends[place]? := List.getElem?_append_left within

theorem append_free (pair : Bool × Bool) (free : Free side ends place) : Free side (ends ++ [pair]) place := by
  rwa [Free,append_isOpen pair (free_lt free)]

theorem append_spent (pair : Bool × Bool) (spent : Spent side ends place) : Spent side (ends ++ [pair]) place := by
  have within : place < ends.length := by
    by_contra beyond
    rw [Spent,List.getElem?_eq_none (Nat.le_of_not_lt beyond)] at spent
    cases spent
  rwa [Spent,append_isOpen pair within]

theorem free_new (side : Side) (ends : Ends) (pair : Bool × Bool) (opened : isOpen side pair = true) :
    Free side (ends ++ [pair]) ends.length := by
  simp [Free,opened]

theorem take_comm {first last : Ends} (apart : side ≠ other) (before : take side ends index = some first)
    (after : take other first place = some last) :
    ∃ second, take other ends place = some second ∧ take side second index = some last := by
  obtain ⟨pair,found,opened,rfl⟩ := take_some before
  have within := (List.getElem?_eq_some_iff.mp found).1
  obtain ⟨next,found',opened',rfl⟩ := take_some after
  by_cases same : place = index
  · subst same
    rw [List.getElem?_set_self within] at found'
    cases found'
    have still : isOpen other pair = true := by
      revert opened'
      cases side <;> cases other <;> simp_all [isOpen,close]
    have also : isOpen side (close other pair) = true := by
      revert opened
      cases side <;> cases other <;> simp_all [isOpen,close]
    have swap : close other (close side pair) = close side (close other pair) := by
      cases side <;> cases other <;> simp_all [close]
    refine ⟨ends.set place (close other pair),by simp [take,found,still],?_⟩
    simp [take,within,also,swap]
  · rw [List.getElem?_set_ne (Ne.symm same)] at found'
    refine ⟨ends.set place (close other next),by simp [take,found',opened'],?_⟩
    rw [take,List.getElem?_set_ne same,found]
    simp only [Option.bind_eq_bind,Option.bind_some,if_pos opened]
    rw [List.set_comm _ _ same]

def takes : Side → Step → List Nat
  | .read, .remote _ (.run _ process) => [process.stdin]
  | .write, .remote _ (.run _ process) => [process.stdout,process.stderr]
  | _, _ => []

inductive Stepped (ends : Ends) : Step → Ends → Prop
  | pipe : Stepped ends .pipe (ends ++ [(true,true)])
  | openOutputFile (remote path) : Stepped ends (.remote remote (.openOutputFile path)) (ends ++ [(false,true)])
  | run (remote cmd process first second next) (stdout : take .write ends process.stdout = some first)
      (stderr : take .write first process.stderr = some second)
      (stdin : take .read second process.stdin = some next) : Stepped ends (.remote remote (.run cmd process)) next

theorem step_stepped {action : Step} (stepped : step ends action = some next) : Stepped ends action next := by
  unfold step at stepped
  split at stepped
  · cases stepped
    exact .pipe
  · cases stepped
    exact .openOutputFile _ _
  · obtain ⟨first,stdout,stepped⟩ := Option.bind_eq_some_iff.mp stepped
    obtain ⟨second,stderr,stdin⟩ := Option.bind_eq_some_iff.mp stepped
    exact .run _ _ _ first second next stdout stderr stdin
  · cases stepped

theorem spending (side : Side) : Spending step (takes side) (Spent side) where
  once stepped := by
    cases step_stepped stepped with
    | pipe => cases side <;> exact List.nodup_nil
    | openOutputFile => cases side <;> exact List.nodup_nil
    | run remote cmd process first second next stdout stderr stdin =>
      cases side with
      | read => exact List.nodup_singleton _
      | write =>
        have free := take_unspent stderr
        rw [take_spent stdout] at free
        simp [takes]
        grind
  free stepped item member := by
    cases step_stepped stepped with
    | pipe => cases side <;> cases member
    | openOutputFile => cases side <;> cases member
    | run remote cmd process first second next stdout stderr stdin =>
      cases side with
      | read =>
        obtain rfl := List.mem_singleton.mp member
        have free := take_unspent stdin
        rw [take_spent stderr,take_spent stdout] at free
        grind
      | write =>
        have first := take_unspent stdout
        have second := take_unspent stderr
        rw [take_spent stdout] at second
        simp only [takes,List.mem_cons,List.not_mem_nil,or_false] at member
        rcases member with rfl | rfl
        · exact first
        · exact fun spent => second (Or.inl spent)
  gone stepped item member := by
    cases step_stepped stepped with
    | pipe => cases side <;> cases member
    | openOutputFile => cases side <;> cases member
    | run remote cmd process first second next stdout stderr stdin =>
      rw [take_spent stdin,take_spent stderr,take_spent stdout]
      cases side with
      | read =>
        obtain rfl := List.mem_singleton.mp member
        exact Or.inr ⟨rfl,rfl⟩
      | write =>
        simp only [takes,List.mem_cons,List.not_mem_nil,or_false] at member
        grind
  stays stepped item spent := by
    cases step_stepped stepped with
    | pipe => exact append_spent _ spent
    | openOutputFile => exact append_spent _ spent
    | run remote cmd process first second next stdout stderr stdin =>
      rw [take_spent stdin,take_spent stderr,take_spent stdout]
      exact Or.inl (Or.inl (Or.inl spent))

end Ends
end Nak
