import AccessPolicy.Proofs.Engine.Tends
import AccessPolicy.Proofs.Engine.Upheld

/-!
Two writes beside each other. The evaluators agree with the store when both have ended, as long as
none of them commits under an id for which the other still owes its registry call. Without that a
registry call may come after one that belongs to a later commit, and what is stored no longer stays
in the evaluator.
-/
namespace AccessPolicy

namespace Engine

open Act hiding pure bind state

/-- The step commits under an id. -/
def Commits (mark : WriteMark) (engine : Engine) (id : RuleId) : Prop :=
  match mark.kind with
  | .insert => id = engine.commons.store.nextId
  | .commit committed => id = committed
  | _ => False

/-- The registry call is owed before the step that is due. -/
def OwedAt (due : Option WriteMark) (owed : Owed) : Prop :=
  (Debt.ofDue due).owed = some owed

instance (mark : WriteMark) (engine : Engine) (id : RuleId) : Decidable (Commits mark engine id) :=
  match mark with
  | ⟨.insert, _⟩ => inferInstanceAs (Decidable (id = engine.commons.store.nextId))
  | ⟨.commit committed, _⟩ => inferInstanceAs (Decidable (id = committed))
  | ⟨.plan, _⟩ | ⟨.carry, _⟩ | ⟨.drop, _⟩ | ⟨.announce, _⟩ | ⟨.invalidate, _⟩ =>
    inferInstanceAs (Decidable False)

/-- A commit under an id is made when the other write owes no registry call for the id. A new rule
finds its id free. -/
structure Spaced (mark : WriteMark) (other : Option WriteMark) (engine : Engine) : Prop where
  apart : ∀ owed, OwedAt other owed → ¬ Commits mark engine owed.id
  room : mark.kind = .insert → engine.commons.store.HasRoom

instance (mark : WriteMark) (other : Option WriteMark) (engine : Engine) :
    Decidable (Spaced mark other engine) :=
  decidable_of_iff ((∀ owed ∈ (Debt.ofDue other).owed, ¬ Commits mark engine owed.id) ∧
      (mark.kind = .insert →
        (engine.commons.store.rows.get? engine.commons.store.nextId).isNone = true))
    ⟨fun ⟨apart, room⟩ => ⟨apart, fun inserts => Option.isNone_iff_eq_none.mp (room inserts)⟩,
      fun spaced => ⟨spaced.apart, fun inserts => Option.isNone_iff_eq_none.mpr (spaced.room inserts)⟩⟩

theorem Spaced.clear {mark : WriteMark} {other : Option WriteMark} {engine : Engine} {debt : Debt}
    (spaced : Spaced mark other engine) (free : debt.owed = none) {owed : Owed}
    (due : debt.owed = some owed ∨ OwedAt other owed) : ¬ Commits mark engine owed.id := by
  rcases due with impossible | due
  · rw [free] at impossible
    cases impossible
  · exact spaced.apart owed due

/-- The evaluators are right but for what the one write and the other owe. -/
def Abreast (debt : Debt) (other : Option WriteMark) (engine : Engine) : Prop :=
  Owing (fun owed => debt.owed = some owed ∨ OwedAt other owed) (fun _ => True) engine

theorem abreast_comm {one other : Option WriteMark} {engine : Engine} :
    Abreast (.ofDue one) other engine = Abreast (.ofDue other) one engine := by
  have same : (fun owed => OwedAt one owed ∨ OwedAt other owed) =
      fun owed => OwedAt other owed ∨ OwedAt one owed :=
    funext fun owed => propext or_comm
  exact congrArg (Owing · (fun _ => True) engine) same

theorem fair_true (now : Instant) : Fair (fun _ => True) now :=
  fun _ _ _ _ => trivial

/-- A debt that was free owes its call beside what the other owes. -/
theorem owing_iff {left : List Rule} {owed other : Owed} {rest : Prop} :
    (Debt.owing left owed).owed = some other ∨ rest ↔
      ((Debt.leaving left).owed = some other ∨ rest) ∨ other = owed := by
  rw [Debt.owed_owing_iff left, or_right_comm]

theorem upheld_abreast : Upheld Abreast Spaced where
  sound := Owing.sound
  paced := Owing.paced
  elapse := fun abreast paced => abreast.of_same rfl rfl rfl paced
  publish := fun _ abreast => abreast.of_same rfl rfl rfl abreast.paced
  read := fun abreast _ => abreast
  unread := fun abreast => abreast
  insert := by
    intro other engine stored abreast spaced identified closing
    apply Owing.insert abreast (fair_true _) (fun _ _ => trivial) (spaced.room rfl) identified closing
    · exact fun owed due same => spaced.clear rfl due (same.trans identified)
    · exact fun _ => owing_iff
    · trivial
  update := by
    intro other engine previous current abreast spaced closing same _ ⟨stored, present, owned⟩
    apply Owing.update abreast (fair_true _) (fun _ _ => trivial) closing same present owned
    · exact fun owed due clash => spaced.clear rfl due clash
    · exact fun _ => owing_iff
    · trivial
    · trivial
  delete := by
    intro left other engine rule abreast spaced present
    apply Owing.delete abreast (fair_true _) (fun _ _ => trivial) present
    · exact fun owed due clash => spaced.clear rfl due clash
    · exact fun _ => owing_iff
    · trivial
  call := by
    intro left owed other engine abreast
    apply Leads.mono (Owing.leads_call abreast (Or.inl rfl) ?_ ?_)
    · exact fun _ _ ends => ends.1
    · exact fun _ _ ends => ends.1
    · exact fun _ impossible => impossible
    · exact fun _ less => less.imp_left fun impossible => nomatch impossible
    · exact fun _ => owing_iff.mp
  drop := by
    intro left owed other engine abreast
    apply Owing.drop abreast
    · exact fun _ less => less.imp_left fun impossible => nomatch impossible
    · exact fun _ => owing_iff.mp
  close := fun abreast => abreast
  invalidate := by
    intro rule left other engine abreast _
    apply (Owing.ensures_invalidateFor abreast rule).mono
    rintro _ after ⟨middle, tends, same | ⟨subject, evaluator, _, _, _, same⟩⟩
    · have kept := Owing.of_tends abreast tends
      rw [same]
      exact kept.of_same rfl rfl rfl kept.paced
    · have kept := Owing.of_tends abreast tends
      rw [same]
      exact kept.of_same rfl rfl rfl kept.paced
  settle := fun abreast => abreast

variable {engine final : Engine}

/-- Two writes that are spaced leave evaluators that follow the stored rules. -/
theorem coherent_of_overlap {one other : Write} (closing : one.Closes) (closingToo : other.Closes)
    (coherent : Coherent (Regime.steady False) engine)
    (overlap : Steps.Overlap Spaced Spaced one.steps other.steps engine final) :
    Coherent (Regime.steady False) final := by
  have mine := upheld_abreast.upholds_steps one closing
  have theirs := upheld_abreast.upholds_steps other closingToo
  have nothing : ∀ owed, ¬ (OwedAt none owed ∨ OwedAt none owed) := by
    rintro owed (impossible | impossible) <;> cases impossible
  have start : Abreast .free none engine := coherent.owing nothing (fair_true _)
  have guarded : Steps.Guards (fun due others => Abreast (.ofDue others) due) Spaced other.steps := by
    have comm : (fun due others => Abreast (.ofDue others) due) = fun due => Abreast (.ofDue due) :=
      funext fun due => funext fun others => funext fun _ => abreast_comm
    rw [comm]
    exact theirs.2
  have first : Abreast (.ofDue one.steps.due) none engine := mine.1 none engine start
  have swapped : Abreast .free one.steps.due engine := abreast_comm.mp first
  have both : Abreast (.ofDue one.steps.due) other.steps.due engine :=
    abreast_comm.mpr (theirs.1 one.steps.due engine swapped)
  have ends : Abreast .free none final := overlap.preserves mine.2 guarded both
  exact Owing.coherent ends nothing

/-- After two writes that are spaced an evaluator that is built anew from the store decides as the
tenant's does. -/
theorem enforces_build_of_overlap {one other : Write} (closing : one.Closes)
    (closingToo : other.Closes) (coherent : Coherent (Regime.steady False) engine)
    (overlap : Steps.Overlap Spaced Spaced one.steps other.steps engine final) (tenant : TenantId) :
    ∃ rules reference, final.commons.store.find (RuleFilter.ofTenant tenant) = .ok rules ∧
      Evaluator.build tenant rules final.now = .ok reference ∧
      ∀ subject service object action, ∃ evaluation : Evaluation,
        (enforce tenant subject service object action final.newCall).1 = .ok evaluation ∧
          { evaluation with validUntil := none } =
            { reference.enforce subject service object action with validUntil := none } := by
  have coherent_final := coherent_of_overlap closing closingToo coherent overlap
  have sound := coherent_final.sound
  obtain ⟨reference, built⟩ := Evaluator.build_of_closes
    (fun _ member => sound.closes_of_mem_law member) tenant final.now
  have mirrors : reference.Mirrors (final.commons.store.law tenant) final.now := by
    have owned : (final.commons.store.law tenant).filter (·.tenant = tenant) =
        final.commons.store.law tenant := by
      simp [RuleStore.law]
    exact owned ▸ Evaluator.mirrors_of_build built
  refine ⟨_, reference, sound.find_ofTenant tenant, built, ?_⟩
  intro subject service object action
  obtain ⟨evaluator, renders, same⟩ := coherent_final.asked tenant
    (·.enforce subject service object action)
  refine ⟨_, same, ?_⟩
  rw [renders.mirrors.enforce_eq mirrors]

section Witnesses

def annWrites : Rule :=
  { Rule.ofPermission ⟨1⟩ "orders" ⟨"ann", "*", "write", .allow⟩ .epoch with id := ⟨1⟩ }

theorem coherent_answered : Coherent (Regime.steady False) answered := by
  have start : Coherent (Regime.steady False) started :=
    coherent_start RuleStore.sound_empty _ _ _ _ fun impossible => impossible.elim
  exact (coherent_of_run (run_answered True) (fun impossible => impossible.elim) start).1

/-- The update is committed and carried before the rule is deleted. -/
def inTurn : List Bool :=
  [true, true, true, true, true, true, false, true, false, true, false, true, false]

theorem inTurn_plays : (Steps.play (fun mark other engine => Decidable.decide (Spaced mark other engine))
    (fun mark other engine => Decidable.decide (Spaced mark other engine)) inTurn
    (Write.update ⟨1⟩ annWrites).steps (Write.delete ⟨1⟩ [⟨1⟩]).steps answered).isSome = true := by
  decide +kernel

theorem enforces_build_of_inTurn : ∃ final,
    Steps.Overlap Spaced Spaced (Write.update ⟨1⟩ annWrites).steps (Write.delete ⟨1⟩ [⟨1⟩]).steps
      answered final ∧
    ∃ rules reference, final.commons.store.find (RuleFilter.ofTenant ⟨1⟩) = .ok rules ∧
      Evaluator.build ⟨1⟩ rules final.now = .ok reference ∧
      ∀ subject service object action, ∃ evaluation : Evaluation,
        (enforce ⟨1⟩ subject service object action final.newCall).1 = .ok evaluation ∧
          { evaluation with validUntil := none } =
            { reference.enforce subject service object action with validUntil := none } := by
  obtain ⟨final, played⟩ := Option.isSome_iff_exists.mp inTurn_plays
  have overlap : Steps.Overlap Spaced Spaced (Write.update ⟨1⟩ annWrites).steps
      (Write.delete ⟨1⟩ [⟨1⟩]).steps answered final :=
    Steps.overlap_of_play (fun _ _ _ => of_decide_eq_true) (fun _ _ _ => of_decide_eq_true) played
  have closing : (Write.update ⟨1⟩ annWrites).Closes := by
    change annWrites.closes = true
    decide
  have closingToo : (Write.delete ⟨1⟩ [⟨1⟩]).Closes := trivial
  exact ⟨final, overlap,
    enforces_build_of_overlap closing closingToo coherent_answered overlap ⟨1⟩⟩

/-- The rule is deleted between the commit of the update and its registry call. -/
def overtaken : List Bool :=
  [true, true, true, true, true, false, false, false, false, true, true, true, true]

/-- The tenant has no rule, and ann is allowed to write. -/
def Haunted (engine : Engine) : Prop :=
  engine.commons.store.find (RuleFilter.ofTenant ⟨1⟩) = .ok [] ∧ ∃ evaluation : Evaluation,
    (enforce ⟨1⟩ "ann" "orders" "/orders/7" "write" engine.newCall).1 = .ok evaluation ∧
      evaluation.allowed = true

def isHaunted (engine : Engine) : Bool :=
  match engine.commons.store.find (RuleFilter.ofTenant ⟨1⟩),
    (enforce ⟨1⟩ "ann" "orders" "/orders/7" "write" engine.newCall).1 with
  | .ok [], .ok evaluation => evaluation.allowed
  | _, _ => false

theorem haunted_of_isHaunted {engine : Engine} (haunted : isHaunted engine = true) :
    Haunted engine := by
  unfold isHaunted at haunted
  split at haunted
  · rename_i evaluation empty answer
    exact ⟨empty, evaluation, answer, haunted⟩
  · cases haunted

/-- When a rule is deleted between the commit of its update and the registry call, the call comes
after the one that takes the rule out, and the evaluator goes on granting by a rule that is no longer
stored. -/
theorem haunted_of_overtaken : Coherent (Regime.steady False) answered ∧
    (answered.evaluator? ⟨1⟩).isSome = true ∧ ∃ final,
    Steps.Overlap (fun _ _ _ => True) (fun _ _ _ => True) (Write.update ⟨1⟩ annWrites).steps
      (Write.delete ⟨1⟩ [⟨1⟩]).steps answered final ∧ Haunted final := by
  have plays : ((Steps.play (fun _ _ _ => true) (fun _ _ _ => true) overtaken
      (Write.update ⟨1⟩ annWrites).steps (Write.delete ⟨1⟩ [⟨1⟩]).steps answered).any isHaunted) =
        true := by
    decide +kernel
  obtain ⟨final, played, haunted⟩ := (Option.any_eq_true ..).mp plays
  have resident : (answered.evaluator? ⟨1⟩).isSome = true := by
    decide +kernel
  refine ⟨coherent_answered, resident, final, ?_, haunted_of_isHaunted haunted⟩
  exact Steps.overlap_of_play (fun _ _ _ _ => trivial) (fun _ _ _ _ => trivial) played

end Witnesses

end Engine

end AccessPolicy
