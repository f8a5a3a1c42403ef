import Nak.WaitProtocol

/-! What a line asks the backend for, in order: each of its processes once, and each pipe that
the frontend reads once. -/
namespace Nak
open Library Action Session

/-- The pipes of a line whose data the frontend asks for, in the order in which it does. -/
def Line.readPipes (line : Line) : List GenericPipe :=
  line.directory.pipes.stdout.toGeneric :: line.directory.pipes.stderr.toGeneric :: line.sinks.map Prod.fst

theorem ReadPipe.toGeneric_injective : Function.Injective ReadPipe.toGeneric := by
  intro one two same
  cases one
  cases two
  exact congrArg ReadPipe.mk (GenericPipe.mk.inj same)

namespace Shell
variable {trans : Transport Error} {inputs : Inputs} {endpoint next start : Endpoint StackedRemotes}

/-- The turns a line is begun in: the steps of its plan, its directory and its sinks. -/
inductive Lays (trans : Transport Error) (plan : Plan) (start : Endpoint StackedRemotes) :
    Line → Endpoint StackedRemotes → Prop
  | laid (stage middle second remote sinks last)
      (stepped : runSteps trans plan.steps ⟨[],[]⟩ start = .ok (.ok (some stage),middle))
      (begun : beginDirectory trans stage.jobs middle = .ok (.ok (directoryAt middle.ids.nextId),second))
      (current : curRemote second = .ok (.ok remote,second))
      (read : readSinks trans remote 0 plan.sinkMap stage.pipePairs second = .ok (.ok sinks,last)) :
      Lays trans plan start ⟨stage.jobs,directoryAt middle.ids.nextId,sinks⟩ (last.changed fun handler =>
        { handler with waitingFor := insert (directoryAt middle.ids.nextId).id (ids stage.jobs) })

theorem beginLine_lays {plan : Plan} {line : Line} (ok : beginLine trans plan start = .ok (.ok (some line),next)) :
    Lays trans plan start line next := by
  obtain ⟨stage?,middle,stepped,rest⟩ := bind_ok.mp ok
  cases stage? with
  | none => cases rest
  | some stage =>
    obtain ⟨directory,second,begun,rest₁⟩ := bind_ok.mp rest
    obtain ⟨rfl,_⟩ := beginDirectory_ok begun
    obtain ⟨remote,third,current,rest₂⟩ := bind_ok.mp rest₁
    obtain rfl := curRemote_ok current
    obtain ⟨sinks,last,read,rest₃⟩ := bind_ok.mp rest₂
    rw [get_bind] at rest₃
    obtain ⟨_,_,rest₄⟩ := lift_bind_ok.mp rest₃
    obtain ⟨_,_,updated,rest₅⟩ := bind_ok.mp rest₄
    obtain ⟨_,rfl⟩ := Prod.mk.inj (Except.ok.inj updated)
    obtain ⟨same,rfl⟩ := pure_ok.mp rest₅
    obtain rfl := Option.some.inj same
    exact .laid stage middle _ remote sinks last stepped begun current read

theorem readLine_lays {line : Line} (ok : readLine inputs start = .ok (.ok (.begun line),next)) :
    ∃ text middle plan, prompt start = .ok (.ok text,middle) ∧ Lays inputs.trans plan middle line next := by
  obtain ⟨text,middle,prompted,rest⟩ := bind_ok.mp ok
  obtain ⟨plan,_,rest₁⟩ := lift_bind_ok.mp rest
  obtain ⟨got,_,propagated,rest₂⟩ := bind_ok.mp rest₁
  obtain ⟨_,rfl⟩ := Prod.mk.inj (Except.ok.inj propagated)
  obtain ⟨done,_,begun,last⟩ := bind_ok.mp rest₂
  cases done with
  | none => cases last
  | some other =>
    obtain ⟨same,rfl⟩ := pure_ok.mp last
    obtain rfl := Turn.begun.inj same
    exact ⟨text,middle,got,prompted,beginLine_lays begun⟩

theorem runSteps_tracked {received : List RemoteResponse} {kept : Endpoint StackedRemotes → Prop}
    (keeps : ∀ stage endpoint step after next, Tracks received endpoint → kept endpoint →
      StepCases trans stage endpoint step after next → kept next)
    (tracks : Tracks received start) (first : kept start) {steps : List Step} {stage : Stage}
    (stepped : runSteps trans steps ⟨[],[]⟩ start = .ok (.ok (some stage),next)) : Tracks received next ∧
    kept next := by
  have opened : Opened [] start := fun _ member => absurd member List.not_mem_nil
  have both (stage : Stage) (endpoint : Endpoint StackedRemotes) (step : Step) (after : Stage)
      (next : Endpoint StackedRemotes)
      (before : (Tracks received endpoint ∧ Opened stage.pipePairs endpoint) ∧ kept endpoint)
      (cases : StepCases trans stage endpoint step after next) :
      (Tracks received next ∧ Opened after.pipePairs next) ∧ kept next := by
    obtain ⟨⟨tracks,opened⟩,kept⟩ := before
    obtain ⟨grows,opened⟩ := runStep_grows tracks opened cases
    exact ⟨⟨tracks.grows grows,opened⟩,keeps stage endpoint step after next tracks kept cases⟩
  obtain ⟨⟨tracks,_⟩,last⟩ := runSteps_keeps both ⟨⟨tracks,opened⟩,first⟩ stepped
  exact ⟨tracks,last⟩

structure Asked (start : Endpoint StackedRemotes) (stage : Stage) (endpoint : Endpoint StackedRemotes) : Prop where
  commands : begunCommands endpoint.sent = begunCommands start.sent ++ stage.jobs.map Job.id
  reads : begunReads endpoint.sent = begunReads start.sent
  drawn : ∀ job ∈ stage.jobs, job.id.val < endpoint.ids.nextId
  distinct : (stage.jobs.map Job.id).Nodup

theorem asked_start : Asked start ⟨[],[]⟩ start := ⟨by simp,rfl,by simp,List.nodup_nil⟩

theorem Asked.other {stage : Stage} {pipePairs : List PipePair} (asked : Asked start stage endpoint) {request : Request}
    (command : request.message.begins? = none) (read : request.message.reads? = none)
    (sent : next.sent = endpoint.sent ++ [request]) (later : endpoint.ids.nextId ≤ next.ids.nextId) :
    Asked start { stage with pipePairs } next where
  commands := by
    rw [sent,begunCommands_append,← List.append_nil (begunCommands start.sent ++ _),← asked.commands]
    simp [begunCommands,command]
  reads := by
    rw [sent,begunReads_append,← asked.reads]
    simp [begunReads,read]
  drawn job member := (asked.drawn job member).trans_le later
  distinct := asked.distinct

theorem runStep_asked {stage after : Stage} {step : Step} (asked : Asked start stage endpoint)
    (cases : StepCases trans stage endpoint step after next) : Asked start after next := by
  cases cases with
  | pipe =>
    exact ⟨asked.commands,asked.reads,fun job member => (asked.drawn job member).trans_le (Nat.le_succ _),
      asked.distinct⟩
  | run ref remote cmd pr stdin stdout stderr one two three current first second third =>
    constructor
    · rw [begunCommands_append,asked.commands,List.map_append,List.append_assoc]
      rfl
    · rw [begunReads_append,asked.reads]
      exact List.append_nil _
    · intro job member
      rcases List.mem_append.mp member with old | new
      · exact (asked.drawn job old).trans (Nat.lt_succ_self _)
      · rw [List.mem_singleton.mp new]
        exact Nat.lt_succ_self _
    · rw [List.map_append]
      refine asked.distinct.append (List.nodup_singleton _) ?_
      intro pid old new
      obtain ⟨job,member,rfl⟩ := List.mem_map.mp old
      have below := asked.drawn job member
      rw [List.mem_singleton.mp new] at below
      exact absurd below (lt_irrefl _)
  | close ref next several ended =>
    obtain ⟨_,_,rfl⟩ := endRemote_ok ended
    exact asked.other rfl rfl rfl le_rfl
  | openOutputFile ref remote path current => exact asked.other rfl rfl rfl (Nat.le_succ _)

theorem readSinks_asked {remote : RemoteId} {index : Nat} {sinkMap : List (Option Sink)} {pairs : List PipePair}
    {sinks : List (GenericPipe × Sink)}
    (ok : readSinks trans remote index sinkMap pairs endpoint = .ok (.ok sinks,next)) :
    begunCommands next.sent = begunCommands endpoint.sent ∧
      begunReads next.sent = begunReads endpoint.sent ++ sinks.map Prod.fst ∧
      ∃ ends left, sinks.map Prod.fst = ends.map ReadPipe.toGeneric ∧ (readEnds pairs).Perm (ends ++ left) := by
  induction sinkMap generalizing index pairs endpoint sinks with
  | nil =>
    obtain ⟨rfl,rfl⟩ := pure_ok.mp ok
    exact ⟨rfl,(List.append_nil _).symm,[],_,rfl,.refl _⟩
  | cons sink sinkMap ih =>
    cases sink with
    | none => exact ih ok
    | some sink =>
      obtain ⟨read,rest,middle,later,taken,rfl,registered,others⟩ := readSinks_some ok
      obtain ⟨_,unsent,_⟩ := registerSink_ok registered
      obtain ⟨commands,reads,ends,left,same,perm⟩ := ih others
      refine ⟨?_,?_,read :: ends,left,?_,?_⟩
      · rw [commands,unsent,begunCommands_append,begunCommands_append]
        simp [begunCommands,RemoteRequest.begins?]
      · rw [reads,unsent,begunReads_append,begunReads_append,List.map_cons,List.append_assoc,List.append_assoc]
        rfl
      · rw [List.map_cons,List.map_cons,same]
      · exact (takeRead_ok taken).1.trans (perm.cons read)

structure Requests (line : Line) (start next : Endpoint StackedRemotes) : Prop where
  commands : begunCommands next.sent = begunCommands start.sent ++ line.all.map Job.id
  reads : begunReads next.sent = begunReads start.sent ++ line.readPipes
  distinct : (line.all.map Job.id).Nodup
  apart : line.readPipes.Nodup

theorem Lays.requests {plan : Plan} {line : Line} (lays : Lays trans plan start line next) :
    Requests line start next := by
  cases lays with
  | laid stage middle second remote sinks last stepped begun current read =>
    have staged := runSteps_staged staged_start stepped
    have asked := runSteps_keeps (fun _ _ _ _ _ before => runStep_asked before) asked_start stepped
    obtain ⟨_,_,⟨remote,sent⟩,_⟩ := beginDirectory_ok begun
    obtain ⟨commands,reads,ends,left,same,perm⟩ := readSinks_asked read
    have below (pipe : GenericPipe) (member : pipe ∈ sinks.map Prod.fst) : pipe.val < middle.ids.nextId := by
      rw [same] at member
      obtain ⟨end',taken,rfl⟩ := List.mem_map.mp member
      exact (staged.reads end' (perm.mem_iff.mpr (List.mem_append_left _ taken))).2
    constructor
    · change begunCommands last.sent = _
      rw [commands,sent,begunCommands_append,asked.commands,Line.all,List.map_append,List.append_assoc]
      rfl
    · change begunReads last.sent = _
      rw [reads,sent,begunReads_append,asked.reads,List.append_assoc]
      rfl
    · rw [Line.all,List.map_append]
      refine asked.distinct.append (List.nodup_singleton _) ?_
      intro pid old new
      obtain ⟨job,member,rfl⟩ := List.mem_map.mp old
      have drawn := asked.drawn job member
      rw [List.mem_singleton.mp new] at drawn
      simp only [directoryAt] at drawn
      omega
    · have distinct : (sinks.map Prod.fst).Nodup := by
        rw [same]
        exact (List.nodup_append.mp (perm.nodup_iff.mp staged.distinct)).1.map ReadPipe.toGeneric_injective
      refine List.nodup_cons.mpr ⟨?_,List.nodup_cons.mpr ⟨?_,distinct⟩⟩
      · intro member
        rcases List.mem_cons.mp member with twice | later
        · have values := congrArg GenericPipe.val twice
          simp [directoryAt,WritePipe.toGeneric] at values
        · exact absurd (below _ later) (lt_irrefl _)
      · intro member
        exact absurd (below _ member) (Nat.not_lt_of_le (Nat.le_succ _))

theorem readLine_requests {line : Line} (ok : readLine inputs start = .ok (.ok (.begun line),next)) :
    Requests line start next := by
  obtain ⟨text,middle,plan,prompted,lays⟩ := readLine_lays ok
  have requests := lays.requests
  obtain ⟨_,_,sent⟩ := prompt_ok prompted
  exact ⟨sent ▸ requests.commands,sent ▸ requests.reads,requests.distinct,requests.apart⟩

theorem readLine_directory {line : Line} (ok : readLine inputs start = .ok (.ok (.begun line),next)) :
    line.directory.command = .getDirectory := by
  obtain ⟨text,middle,plan,prompted,lays⟩ := readLine_lays ok
  cases lays
  rfl

end Shell
end Nak
