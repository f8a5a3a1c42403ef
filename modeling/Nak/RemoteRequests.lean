import Nak.EndpointRules
import Nak.RemoteResponses

/-! Where requests end. The frontend addresses every remote by its own id, but each backend
knows only the backends it started itself, and the first backend is the only one that reads
an address: a request for a remote below the first level ends the session. -/
namespace Nak
open Library

/-- The frontend's end together with its backends, until one of them panics. -/
structure RemoteSession where
  endpoint : Endpoint StackedRemotes
  network : Outcome Network

/-- What opens a remote, or draws an id for something else. -/
inductive Opening where
  | pipe
  | remote (parent : RemoteId) (path : String) (args : List String)

def Opening.act : Opening → Shell Unit
  | .pipe => do
    let _ ← Endpoint.pipe
  | .remote parent path args => do
    let _ ← Endpoint.remote (fun _ => .ok ()) parent (.unknown path args)

namespace RemoteSession

def take (session : RemoteSession) (opening : Opening) : Outcome RemoteSession := do
  let (_,endpoint) ← opening.act session.endpoint
  let requests := endpoint.sent.drop session.endpoint.sent.length
  pure ⟨endpoint,do requests.foldlM Network.receive (← session.network)⟩

/-- The sessions in which every backend that is asked for can be started, and in which no
remote is given the id of the root. -/
def system : System RemoteSession Opening where
  initial session := session = ⟨Endpoint.new StackedRemotes.new,.ok Network.new⟩
  step session opening next := session.take opening = .ok next ∧
    (opening ≠ .pipe → session.endpoint.ids.nextId ≠ 0)

/-- No backend panics on the way of a request for the remote, whatever it asks, and the one
that handles it is the one that was started for the remote. -/
def Reaches (session : RemoteSession) (remote : RemoteId) : Prop :=
  ∃ network, session.network = .ok network ∧ ∀ message, ∃ process,
    network.follow 0 ⟨remote.val,message⟩ = .ok (process,message) ∧
    ∀ other, network.startedFor other = some remote.val ↔ other = process

/-- The remote is the root or was begun on the root. -/
def Direct (endpoint : Endpoint StackedRemotes) (remote : RemoteId) : Prop :=
  remote = Endpoint.root ∨ endpoint.remotes.lookup remote = some ⟨some Endpoint.root⟩

instance (endpoint : Endpoint StackedRemotes) (remote : RemoteId) : Decidable (Direct endpoint remote) :=
  inferInstanceAs (Decidable (_ ∨ _))

/-- Every remote was begun on the root or on a remote that was begun on the root. -/
def Shallow (endpoint : Endpoint StackedRemotes) : Prop :=
  ∀ remote parent, endpoint.remotes.lookup remote = some ⟨some parent⟩ → Direct endpoint parent

theorem take_pipe {session next : RemoteSession} (ok : session.take .pipe = .ok next) :
    next.endpoint.remotes = session.endpoint.remotes ∧
      next.endpoint.ids = ⟨session.endpoint.ids.nextId + 1⟩ ∧ next.network = session.network := by
  obtain rfl := Except.ok.inj ok
  refine ⟨rfl,rfl,?_⟩
  simp only [List.drop_length,List.foldlM_nil]
  cases session.network <;> rfl

theorem take_remote {session next : RemoteSession} {parent : RemoteId} {path : String} {args : List String}
    (ok : session.take (.remote parent path args) = .ok next) :
    parent ∈ session.endpoint.remotes ∧ session.endpoint.remotes.lookup ⟨session.endpoint.ids.nextId⟩ = none ∧
      next.endpoint.ids = ⟨session.endpoint.ids.nextId + 1⟩ ∧
      next.endpoint.remotes =
        session.endpoint.remotes.insert ⟨session.endpoint.ids.nextId⟩ ⟨some parent⟩ ∧
      next.network = session.network >>= fun network =>
        network.receive ⟨parent.val,.beginRemote session.endpoint.ids.nextId (.unknown path args)⟩ := by
  obtain ⟨⟨result,endpoint⟩,acted,same⟩ := Outcome.bind_ok.mp ok
  obtain rfl := Except.ok.inj same
  have begun : ∃ value : Except Error RemoteId,
      Endpoint.remote (fun _ => .ok ()) parent (.unknown path args) session.endpoint = .ok (value,endpoint) := by
    cases result with
    | ok done =>
      obtain ⟨first,middle,begun,last⟩ := Action.bind_ok.mp acted
      obtain ⟨_,rfl⟩ := Action.pure_ok.mp last
      exact ⟨_,begun⟩
    | error e =>
      rcases Action.bind_raised.mp acted with raised | ⟨_,_,_,last⟩
      · exact ⟨_,raised⟩
      · cases last
  obtain ⟨value,begun⟩ := begun
  obtain ⟨member,absent,_,rfl⟩ := Endpoint.remote_ok begun
  refine ⟨member,absent,rfl,rfl,?_⟩
  simp only [List.drop_left]
  cases session.network with
  | error panic => rfl
  | ok network =>
    simp only [Outcome.ok_bind,List.foldlM_cons,List.foldlM_nil]
    cases network.receive _ <;> rfl

structure Alive (endpoint : Endpoint StackedRemotes) (network : Network) : Prop where
  run : ∃ trace, Network.system.Run trace network
  children : ∀ id, (network.subbackend 0 id).isSome ↔ endpoint.remotes.lookup ⟨id⟩ = some ⟨some Endpoint.root⟩
  fresh : ∀ process id, network.startedFor process = some id → id = 0 ∨ id < endpoint.ids.nextId
  shallow : Shallow endpoint

structure Routed (session : RemoteSession) : Prop where
  root : session.endpoint.remotes.lookup Endpoint.root = some ⟨none⟩
  parents : ∀ remote parent, session.endpoint.remotes.lookup remote = some ⟨some parent⟩ →
    parent ∈ session.endpoint.remotes
  alive : ∀ network, session.network = .ok network → Alive session.endpoint network
  lost : ∀ panic, session.network = .error panic → ¬Shallow session.endpoint

theorem routed_new : Routed ⟨Endpoint.new StackedRemotes.new,.ok Network.new⟩ := by
  have only (remote : RemoteId) (state : RemoteState)
      (found : (Endpoint.new StackedRemotes.new).remotes.lookup remote = some state) :
      remote = Endpoint.root ∧ state = ⟨none⟩ := by
    have member := FiniteMap.mem_of_lookup found
    obtain rfl := (Finmap.mem_singleton _ _ _).mp member
    exact ⟨rfl,(Option.some.inj ((Finmap.lookup_singleton_eq).symm.trans found)).symm⟩
  constructor
  · exact Finmap.lookup_singleton_eq
  · intro remote parent found
    have contradiction := (only _ _ found).2
    cases contradiction
  · intro _ shape
    cases shape
    refine ⟨⟨[],.initial rfl⟩,fun id => ?_,?_,fun remote parent found => ?_⟩
    · constructor
      · nofun
      · intro found
        have contradiction := (only _ _ found).2
        cases contradiction
    · intro process id started
      have first : process = 0 := Nat.lt_one_iff.mp (Network.startedFor_inside started)
      subst process
      exact Or.inl (Option.some.inj started).symm
    · have contradiction := (only _ _ found).2
      cases contradiction
  · nofun

/-- The first backend finds the child for a request exactly when the remote is direct. -/
theorem Alive.follow {endpoint : Endpoint StackedRemotes} {network : Network} (alive : Alive endpoint network)
    {remote : RemoteId} (direct : Direct endpoint remote) :
    ∃ process, network.startedFor process = some remote.val ∧
      (process = 0 ∨ network.subbackend 0 remote.val = some process) ∧
      ∀ message, network.follow 0 ⟨remote.val,message⟩ = .ok (process,message) := by
  obtain ⟨trace,run⟩ := alive.run
  have tree := Network.run_tree run
  rcases direct with rfl | child
  · exact ⟨0,tree.root,Or.inl rfl,fun message => rfl⟩
  · obtain ⟨process,linked⟩ := Option.isSome_iff_exists.mp ((alive.children remote.val).mpr child)
    obtain ⟨_,nonzero,started⟩ := tree.linked 0 remote.val process linked
    refine ⟨process,started,Or.inr linked,fun message => ?_⟩
    rw [Network.follow_eq,if_neg nonzero,linked]
    rfl

theorem Alive.unreachable {endpoint : Endpoint StackedRemotes} {network : Network} (alive : Alive endpoint network)
    {remote : RemoteId} (far : ¬Direct endpoint remote) (message : RemoteRequest) :
    network.follow 0 ⟨remote.val,message⟩ = .error .unwrap := by
  have nonzero : remote.val ≠ 0 := by
    intro zero
    refine far (Or.inl ?_)
    obtain ⟨val⟩ := remote
    obtain rfl : val = 0 := zero
    rfl
  have absent : network.subbackend 0 remote.val = none := by
    rw [← Option.not_isSome_iff_eq_none,alive.children]
    exact fun child => far (Or.inr child)
  rw [Network.follow_eq,if_neg nonzero,absent]
  rfl

private theorem direct_insert {endpoint next : Endpoint StackedRemotes} {id parent : RemoteId}
    (absent : endpoint.remotes.lookup id = none)
    (inserted : next.remotes = endpoint.remotes.insert id ⟨some parent⟩) {remote : RemoteId}
    (known : remote ∈ endpoint.remotes) : Direct next remote ↔ Direct endpoint remote := by
  have different : remote ≠ id := by
    intro same
    obtain rfl := same
    exact Finmap.lookup_eq_none.mp absent known
  rw [Direct,Direct,inserted,Finmap.lookup_insert_of_ne _ different]

private theorem shallow_insert {endpoint next : Endpoint StackedRemotes} {id parent : RemoteId}
    (absent : endpoint.remotes.lookup id = none) (member : parent ∈ endpoint.remotes)
    (parents : ∀ remote above, endpoint.remotes.lookup remote = some ⟨some above⟩ → above ∈ endpoint.remotes)
    (inserted : next.remotes = endpoint.remotes.insert id ⟨some parent⟩) :
    Shallow next ↔ Shallow endpoint ∧ Direct endpoint parent := by
  have direct {remote : RemoteId} (known : remote ∈ endpoint.remotes) : Direct next remote ↔ Direct endpoint remote :=
    direct_insert absent inserted known
  constructor
  · intro shallow
    constructor
    · intro remote above found
      have kept : next.remotes.lookup remote = some ⟨some above⟩ := by
        rw [inserted,Finmap.lookup_insert_of_ne]
        · exact found
        · intro same
          obtain rfl := same
          rw [absent] at found
          cases found
      exact (direct (parents remote above found)).mp (shallow remote above kept)
    · have last : next.remotes.lookup id = some ⟨some parent⟩ := by rw [inserted,Finmap.lookup_insert]
      exact (direct member).mp (shallow id parent last)
  · intro given remote above found
    obtain ⟨shallow,hung⟩ := given
    rw [inserted,FiniteMap.lookup_insert_if] at found
    split at found
    · cases found
      exact (direct member).mpr hung
    · exact (direct (parents remote above found)).mpr (shallow remote above found)

private theorem Alive.begin {endpoint next : Endpoint StackedRemotes} {network : Network}
    (alive : Alive endpoint network) {parent : RemoteId} {process id : Nat} (nonzero : id ≠ 0)
    (drawn : endpoint.ids.nextId = id) (absent : endpoint.remotes.lookup ⟨id⟩ = none)
    (shallow : Shallow next) (ids : next.ids = ⟨id + 1⟩)
    (inserted : next.remotes = endpoint.remotes.insert ⟨id⟩ ⟨some parent⟩)
    (started : network.startedFor process = some parent.val)
    (reached : process = 0 ∨ network.subbackend 0 parent.val = some process) :
    Alive next (network.beginRemote process id) := by
  obtain ⟨trace,run⟩ := alive.run
  have tree := Network.run_tree run
  have inside := Network.startedFor_inside started
  have rooted : process = 0 ↔ parent = Endpoint.root := by
    obtain ⟨val⟩ := parent
    constructor
    · intro same
      obtain rfl := same
      have same := Option.some.inj (started.symm.trans tree.root)
      exact congrArg RemoteId.mk same
    · intro shape
      cases shape
      exact tree.distinct process 0 0 started tree.root
  have unused : ∀ backend ∈ network.processes, backend.startedFor ≠ id := by
    intro backend member same
    obtain rfl := same
    obtain ⟨other,bound,found⟩ := List.mem_iff_getElem.mp member
    have started : network.startedFor other = some backend.startedFor := by
      rw [Network.startedFor,List.getElem?_eq_getElem bound,found]
      rfl
    have old := alive.fresh other backend.startedFor started
    omega
  have taken : Network.system.step network (process,id) (network.beginRemote process id) :=
    ⟨inside,nonzero,unused,rfl⟩
  refine ⟨⟨_,run.step taken⟩,?_,?_,shallow⟩
  · intro key
    have vacant : network.subbackend 0 id = none := by
      rw [← Option.not_isSome_iff_eq_none,alive.children,absent]
      simp
    rw [Network.subbackend_begin network process id inside,inserted,FiniteMap.lookup_insert_if]
    by_cases same : key = id
    · subst key
      by_cases first : process = 0
      · simp [first,rooted.mp first]
      · have other : parent ≠ Endpoint.root := fun root => first (rooted.mpr root)
        simp [vacant,Ne.symm first,other]
    · simp [same,alive.children]
  · intro other key found
    rw [Network.startedFor_begin] at found
    rw [ids]
    split at found
    · obtain rfl := Option.some.inj found
      exact Or.inr (Nat.lt_succ_self _)
    · have old := alive.fresh other key found
      simp only
      omega

theorem Routed.taken {session next : RemoteSession} {opening : Opening} (routed : Routed session)
    (taken : system.step session opening next) : Routed next := by
  obtain ⟨ok,drawn⟩ := taken
  cases opening with
  | pipe =>
    obtain ⟨remotes,ids,network⟩ := take_pipe ok
    have shallow : Shallow next.endpoint ↔ Shallow session.endpoint := by simp only [Shallow,Direct,remotes]
    constructor
    · rw [remotes]
      exact routed.root
    · rw [remotes]
      exact routed.parents
    · intro backends found
      have alive := routed.alive backends (network ▸ found)
      refine ⟨alive.run,by rw [remotes]; exact alive.children,fun process id started => ?_,
        shallow.mpr alive.shallow⟩
      have old := alive.fresh process id started
      rw [ids]
      simp only
      omega
    · intro panic found
      rw [shallow]
      exact routed.lost panic (network ▸ found)
  | remote parent path args =>
    have nonzero := drawn nofun
    obtain ⟨member,absent,ids,inserted,network⟩ := take_remote ok
    have shallow := shallow_insert absent member routed.parents inserted
    have different : Endpoint.root ≠ ⟨session.endpoint.ids.nextId⟩ := by
      intro same
      exact nonzero (congrArg RemoteId.val same).symm
    constructor
    · rw [inserted,Finmap.lookup_insert_of_ne _ different]
      exact routed.root
    · intro remote above found
      rw [inserted] at found ⊢
      rw [FiniteMap.lookup_insert_if] at found
      split at found
      · cases found
        exact Finmap.mem_insert.mpr (Or.inr member)
      · exact Finmap.mem_insert.mpr (Or.inr (routed.parents remote above found))
    · intro backends found
      rw [network] at found
      obtain ⟨before,same,received⟩ := Outcome.bind_ok.mp found
      have alive := routed.alive before same
      by_cases direct : Direct session.endpoint parent
      · obtain ⟨process,started,reached,follows⟩ := alive.follow direct
        rw [Network.receive,follows] at received
        obtain rfl := Except.ok.inj received
        exact alive.begin nonzero rfl absent (shallow.mpr ⟨alive.shallow,direct⟩) ids inserted started reached
      · rw [Network.receive,alive.unreachable direct] at received
        cases received
    · intro panic found
      rw [shallow,not_and_or]
      rw [network] at found
      rcases Outcome.bind_error.mp found with dead | ⟨before,same,received⟩
      · exact Or.inl (routed.lost panic dead)
      · have alive := routed.alive before same
        right
        intro direct
        obtain ⟨process,_,_,follows⟩ := alive.follow direct
        rw [Network.receive,follows] at received
        cases received

theorem run_routed {openings : List Opening} {session : RemoteSession} (run : system.Run openings session) :
    Routed session := by
  refine run.invariant (fun _ session => Routed session) ?_ ?_
  · intro _ same
    obtain rfl := same
    exact routed_new
  · exact fun _ _ _ _ _ routed taken => routed.taken taken

/-- Requests for an open remote reach its backend if and only if the remote is the root or
hangs on the root, and no remote was ever begun any deeper than on such a one. -/
theorem reaches_iff {openings : List Opening} {session : RemoteSession} (run : system.Run openings session)
    (remote : RemoteId) :
    session.Reaches remote ↔ Direct session.endpoint remote ∧ Shallow session.endpoint := by
  have routed := run_routed run
  constructor
  · intro given
    obtain ⟨network,found,follows⟩ := given
    have alive := routed.alive network found
    refine ⟨?_,alive.shallow⟩
    by_contra far
    obtain ⟨process,followed,_⟩ := follows (.cancelCommand ⟨0⟩)
    rw [alive.unreachable far] at followed
    cases followed
  · intro given
    obtain ⟨direct,shallow⟩ := given
    cases found : session.network with
    | error panic => exact absurd shallow (routed.lost panic found)
    | ok network =>
      have alive := routed.alive network found
      obtain ⟨process,started,_,follows⟩ := alive.follow direct
      obtain ⟨trace,built⟩ := alive.run
      refine ⟨network,found,fun message => ⟨process,follows message,fun other => ?_⟩⟩
      constructor
      · exact fun started' => (Network.run_tree built).distinct other process remote.val started' started
      · intro same
        obtain rfl := same
        exact started

private def fresh : RemoteSession := ⟨Endpoint.new StackedRemotes.new,.ok Network.new⟩

private def outer : Opening := .remote ⟨0⟩ "ssh" []

private def inner : Opening := .remote ⟨1⟩ "ssh" []

private theorem opened : ∃ drawn once twice network, system.step fresh .pipe drawn ∧
    system.step drawn outer once ∧ system.step once inner twice ∧
    once.endpoint.remotes = (Finmap.singleton Endpoint.root ⟨none⟩).insert ⟨1⟩ ⟨some Endpoint.root⟩ ∧
    (twice.endpoint.remotes.lookup ⟨2⟩).isSome ∧ twice.network = .ok network ∧
    ∀ message, network.follow 0 ⟨2,message⟩ = .error .unwrap :=
  ⟨_,_,_,_,⟨rfl,nofun⟩,⟨rfl,fun _ => by decide⟩,⟨rfl,fun _ => by decide⟩,rfl,rfl,rfl,fun _ => rfl⟩

theorem reaches_outer : ∃ session, system.Run [.pipe,outer] session ∧ session.Reaches ⟨1⟩ := by
  obtain ⟨drawn,once,_,_,first,second,_,remotes,_⟩ := opened
  have run : system.Run [.pipe,outer] once := .step (.step (.initial rfl) first) second
  refine ⟨once,run,(reaches_iff run ⟨1⟩).mpr ⟨Or.inr ?_,fun remote parent found => ?_⟩⟩
  · rw [remotes,Finmap.lookup_insert]
  · rw [remotes,FiniteMap.lookup_insert_if] at found
    split at found
    · cases found
      exact Or.inl rfl
    · obtain rfl := (Finmap.mem_singleton _ _ _).mp (FiniteMap.mem_of_lookup found)
      rw [Finmap.lookup_singleton_eq] at found
      cases found

/-- A request for a remote that was begun on another remote ends the first backend. -/
theorem inner_unreachable : ∃ session, system.Run [.pipe,outer,inner] session ∧ ⟨2⟩ ∈ session.endpoint.remotes ∧
    ∃ network, session.network = .ok network ∧ ∀ message, network.follow 0 ⟨2,message⟩ = .error .unwrap := by
  obtain ⟨drawn,once,twice,network,first,second,third,_,member,found,lost⟩ := opened
  obtain ⟨state,kept⟩ := Option.isSome_iff_exists.mp member
  exact ⟨twice,.step (.step (.step (.initial rfl) first) second) third,FiniteMap.mem_of_lookup kept,network,found,lost⟩

end RemoteSession
end Nak
