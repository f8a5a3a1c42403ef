import Nak.PlanWiring

/-! Whether what the commands of a line read is written: a file in front of a command leaves
the command's input without a writer. -/
namespace Nak
open Library Action Parse Grammar Ends

/-- Every command but the first reads what another one writes. -/
def Plan.Supplied (plan : Plan) : Prop :=
  ∀ started ∈ runs plan.steps, plan.stdin ≠ some started.2.stdin →
    ∃ other ∈ runs plan.steps, other ≠ started ∧
      (other.2.stdout = started.2.stdin ∨ other.2.stderr = started.2.stdin)

section Stages
variable {targets : List (Target Cmd)}

theorem stages_bounds {one : Nat × Nat × Nat} (member : one ∈ stages targets) :
    one.1 ≤ 2 * targets.length ∧ one.2.1 < 2 * targets.length ∧ one.2.2 < 2 * targets.length ∧ one.2.1 ≠ one.1 := by
  induction targets with
  | nil => simp [stages] at member
  | cons target targets ih =>
    rw [stages] at member
    rw [List.length_cons]
    rcases List.mem_append.mp member with old | new
    · have bounds := ih old
      omega
    · cases target with
      | file path => simp [stage] at new
      | command cmd =>
        obtain rfl := List.mem_singleton.mp new
        dsimp only
        omega

theorem stages_nil : stages targets = [] ↔ ∀ target ∈ targets, ∃ path, target = .file path := by
  induction targets with
  | nil => simp [stages]
  | cons target targets ih =>
    rw [stages,List.append_eq_nil_iff,ih,List.forall_mem_cons]
    cases target <;> simp [stage]

theorem tidy_supplied (tidy : Tidy targets) {one : Nat × Nat × Nat} (member : one ∈ stages targets) :
    one.1 = 2 * targets.length ∨ ∃ other ∈ stages targets, other.2.1 = one.1 := by
  induction targets with
  | nil => simp [stages] at member
  | cons target targets ih =>
    cases target with
    | file path =>
      rw [stages,stages_nil.mpr tidy] at member
      simp [stage] at member
    | command cmd =>
      rw [stages] at member ⊢
      rcases List.mem_append.mp member with old | new
      · rcases ih tidy old with front | ⟨other,listed,writes⟩
        · exact Or.inr ⟨_,List.mem_append_right _ (List.mem_singleton.mpr rfl),front.symm⟩
        · exact Or.inr ⟨other,List.mem_append_left _ listed,writes⟩
      · obtain rfl := List.mem_singleton.mp new
        exact Or.inl rfl

/-- What the command behind a file reads, no command writes. -/
theorem untidy_starves (untidy : ¬Tidy targets) : ∃ one ∈ stages targets, one.1 < 2 * targets.length ∧
    ∀ other ∈ stages targets, other.2.1 ≠ one.1 ∧ other.2.2 ≠ one.1 := by
  induction targets with
  | nil => exact absurd trivial untidy
  | cons target targets ih =>
    rw [List.length_cons,stages]
    cases target with
    | command cmd =>
      obtain ⟨one,member,before,unwritten⟩ := ih untidy
      refine ⟨one,List.mem_append_left _ member,by omega,fun other listed => ?_⟩
      rcases List.mem_append.mp listed with old | new
      · exact unwritten other old
      · obtain rfl := List.mem_singleton.mp new
        exact ⟨by dsimp only; omega,by dsimp only; omega⟩
    | file path =>
      rw [stage,List.append_nil]
      by_cases tidy : Tidy targets
      · cases targets with
        | nil => exact absurd (by simp [Tidy]) untidy
        | cons next targets =>
          cases next with
          | file other =>
            refine absurd ?_ untidy
            exact List.forall_mem_cons.mpr ⟨⟨other,rfl⟩,tidy⟩
          | command cmd =>
            refine ⟨_,List.mem_append_right _ (List.mem_singleton.mpr rfl),?_,fun other listed => ?_⟩
            · dsimp only
              rw [List.length_cons]
              omega
            have bounds := stages_bounds listed
            rw [List.length_cons] at bounds
            dsimp only
            omega
      · obtain ⟨one,member,before,unwritten⟩ := ih tidy
        exact ⟨one,member,by omega,unwritten⟩

end Stages

section Line
variable {remotes : Remotes} {prefs : Prefs} {remote : RemoteRef} {line : String}

theorem pipeline_supplied (rooted : remotes.stack.getLast? = some remote) {pipeline : Pipeline}
    (converts : Converts prefs pipeline.ast) : ∃ plan,
      planCommandSimple remotes prefs pipeline.ast = .ok (.ok plan) ∧ (plan.Supplied ↔ Tidy pipeline.targets) := by
  obtain ⟨out,err,builder,command,composed,numbered,head,plan,planned,stdin,-,steps⟩ := planned_pipeline rooted converts
  have quiet : runs [] = [] ∧ ∀ place, filesFrom place [] = [] := ⟨rfl,fun _ => rfl⟩
  obtain ⟨-,begun,-⟩ := composed.command head quiet steps
  have whole : (runs plan.steps).map piped = stages (.command pipeline.head :: pipeline.targets) := by
    rw [begun,List.map_append,numbered.piped,stages,numbered.length,numbered.out,numbered.err]
    rfl
  have listed {started : Started} (member : started ∈ runs plan.steps) :
      piped started ∈ stages (.command pipeline.head :: pipeline.targets) :=
    whole ▸ List.mem_map_of_mem member
  have found {one : Nat × Nat × Nat} (member : one ∈ stages (.command pipeline.head :: pipeline.targets)) :
      ∃ started ∈ runs plan.steps, piped started = one := by
    rw [← whole] at member
    exact List.mem_map.mp member
  rw [numbered.length] at stdin
  refine ⟨plan,planned,fun supplied => ?_,fun tidy started member later => ?_⟩
  · by_contra untidy
    obtain ⟨one,member,before,unwritten⟩ :=
      untidy_starves (show ¬Tidy (.command pipeline.head :: pipeline.targets) from untidy)
    obtain ⟨started,runs,rfl⟩ := found member
    have later : plan.stdin ≠ some started.2.stdin := by
      rw [stdin]
      intro same
      exact before.ne (Option.some.inj same).symm
    obtain ⟨other,among,-,writes⟩ := supplied started runs later
    have apart := unwritten _ (listed among)
    exact writes.elim apart.1 apart.2
  · rcases tidy_supplied (show Tidy (.command pipeline.head :: pipeline.targets) from tidy) (listed member) with
      front | ⟨one,among,writes⟩
    · exact absurd (stdin.trans (congrArg some front.symm)) later
    · obtain ⟨other,runs,rfl⟩ := found among
      refine ⟨other,runs,?_,Or.inl writes⟩
      rintro rfl
      exact (stages_bounds among).2.2.2 writes

/-- Every command but the first reads what another one writes exactly when no `>` comes
before a `|`. -/
theorem supplied_iff (rooted : remotes.stack.getLast? = some remote) {ast : Ast} (parsed : parseInput line = .ok ast)
    (converts : Converts prefs ast) :
    ∃ plan, parseCommandSimple remotes prefs line = .ok (.ok plan) ∧ (plan.Supplied ↔ ¬FileBeforePipe line) := by
  obtain ⟨tokens,lexed,plan,planned,supplied⟩ :=
    @planned_single remotes prefs line Plan.Supplied (fun tokens =>
      ¬[.redirect,.pipe].Sublist tokens) ast parsed converts
      (by simp [Plan.Supplied,opened,runs,started]) fun tokens segment read converts => by
        obtain ⟨plan,planned,same⟩ := pipeline_supplied rooted converts
        exact ⟨plan,planned,same.trans (readSegment_tidy read)⟩
  have order : ¬FileBeforePipe line ↔ ¬[.redirect,.pipe].Sublist tokens := by
    rw [FileBeforePipe,lexed]
    simp
  exact ⟨plan,planned,supplied.trans order.symm⟩

/-- `a|b > c`: what `b` reads is written by `a`. -/
theorem supplied_iff_piped : ∃ plan, parseCommandSimple ⟨[⟨0⟩]⟩ ⟨[]⟩ "a|b > c" = .ok (.ok plan) ∧ plan.Supplied := by
  have parsed : parseInput "a|b > c" = .ok (Pipeline.ast ⟨command ["a"],
      [.command (command ["b"]),.file (.normal "c")]⟩) :=
    parsed_of_reference rfl
  have converts : Converts ⟨[]⟩ (Pipeline.ast ⟨command ["a"],[.command (command ["b"]),.file (.normal "c")]⟩) := by
    rw [Pipeline.ast,if_neg (by simp)]
    simp only [List.map_cons,List.map_nil,clause,Converts,ClausesConvert,ClauseConverts,TargetConverts]
    exact ⟨⟨_,rfl⟩,⟨_,rfl⟩,trivial,trivial⟩
  obtain ⟨plan,planned,supplied⟩ := @supplied_iff ⟨[⟨0⟩]⟩ ⟨[]⟩ ⟨0⟩ "a|b > c" rfl _ parsed converts
  refine ⟨plan,planned,supplied.mpr ?_⟩
  rintro ⟨tokens,lexed,order⟩
  cases lexed
  revert order
  decide

/-- `b` of `a > c | b` waits for what nobody writes: `a` writes to the file. -/
theorem supplied_fails : ∃ plan, parseCommandSimple ⟨[⟨0⟩]⟩ ⟨[]⟩ "a > c | b" = .ok (.ok plan) ∧
    (.unknown "b" [],⟨0,2,0,1⟩) ∈ runs plan.steps ∧ ¬plan.Supplied := by
  have parsed : parseInput "a > c | b" = .ok (Pipeline.ast ⟨command ["a"],
      [.file (.normal "c"),.command (command ["b"])]⟩) :=
    parsed_of_reference rfl
  refine ⟨⟨[.pipe,.pipe,.pipe,.remote ⟨0⟩ (.run (.unknown "b" []) ⟨0,2,0,1⟩),.pipe,
    .remote ⟨0⟩ (.openOutputFile "c"),.pipe,.pipe,.remote ⟨0⟩ (.run (.unknown "a" []) ⟨1,6,4,5⟩)],
    some 6,0,0,[some .stdout,some .stderr]⟩,?_,by simp [runs,started],fun supplied => ?_⟩
  · rw [parseCommandSimple,parsed]
    rfl
  · obtain ⟨other,among,-,writes⟩ := supplied (.unknown "b" [],⟨0,2,0,1⟩) (by simp [runs,started]) (by simp)
    simp only [runs,started,List.filterMap_cons,List.filterMap_nil,List.mem_cons,List.not_mem_nil,or_false] at among
    rcases among with rfl | rfl <;> simp at writes

end Line
end Nak
