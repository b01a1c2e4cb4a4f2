import AccessPolicy.Proofs.Evaluator.DenyOverrides
import AccessPolicy.Proofs.Rule.Concern
import AccessPolicy.Rule.Validation
import Mathlib.Data.List.Forall2
import Mathlib.Data.List.Nodup

/-!
Which rules a validator reports as conflicts of a rule. They are those that count beside it and speak of
the same matter. A conflict is called a duplicate when an evaluator would hold one tuple for both rules.
-/
namespace AccessPolicy

/-- What a rule is about, whether it allows it or denies it. -/
inductive Matter where
  | access (subject object action : String)
  | membership (relation : Relation) (member group : String)
deriving DecidableEq, Repr

/-- An evaluator's entry for a rule, before the relation of a grouping is looked up. -/
inductive Tuple where
  | permission (grant : Grant)
  | grouping (relation member group : String)
deriving DecidableEq, Repr

def RuleKind.matter : RuleKind → Matter
  | .permission held => .access held.subject held.object held.action
  | .grouping link => .membership link.relation link.member link.group

def RuleKind.tuple (service : String) : RuleKind → Tuple
  | .permission held =>
    .permission ⟨held.subject, service, held.object, held.action, held.effect⟩
  | .grouping link => .grouping link.relation.name link.member link.group

def Compiled.tuple : Compiled → Tuple
  | .grant held => .permission held
  | .membership link => .grouping link.tree.name link.member link.group

theorem Tree.name_inj {tree other : Tree} : tree.name = other.name ↔ tree = other := by
  cases tree <;> cases other <;> simp [Tree.name]

/-- Different entries have different tuples. -/
theorem Compiled.tuple_inj {made held : Compiled} : made.tuple = held.tuple ↔ made = held := by
  cases made with
  | grant mine => cases held <;> simp [Compiled.tuple]
  | membership mine =>
    cases held with
    | grant theirs => simp [Compiled.tuple]
    | membership theirs =>
      obtain ⟨_, _, _⟩ := mine
      obtain ⟨_, _, _⟩ := theirs
      simp [Compiled.tuple, Tree.name_inj]

namespace Rule

def matter? (rule : Rule) : Option Matter :=
  rule.kind.toOption.map RuleKind.matter

def tuple? (rule : Rule) : Option Tuple :=
  rule.kind.toOption.map (RuleKind.tuple rule.service)

/-- The other rule counts now, for the same tenant and service, and speaks of the same matter; the stored
version of the rule itself does not meet it. -/
structure Meets (rule other : Rule) (now : Instant) : Prop where
  active : other.isActive now = true
  tenant : other.tenant = rule.tenant
  service : other.service = rule.service
  apart : rule.id.isAssigned = true → other.id ≠ rule.id
  readable : (rule.matter?).isSome = true
  matter : other.matter? = rule.matter?

instance (rule other : Rule) (now : Instant) : Decidable (rule.Meets other now) :=
  decidable_of_iff
    (other.isActive now = true ∧ other.tenant = rule.tenant ∧ other.service = rule.service ∧
      (rule.id.isAssigned = true → other.id ≠ rule.id) ∧ (rule.matter?).isSome = true ∧
      other.matter? = rule.matter?)
    ⟨fun ⟨active, tenant, service, apart, readable, matter⟩ =>
      ⟨active, tenant, service, apart, readable, matter⟩,
    fun ⟨active, tenant, service, apart, readable, matter⟩ =>
      ⟨active, tenant, service, apart, readable, matter⟩⟩

/-- What is warned of a rule that meets another: it is a duplicate, or the two are permissions of opposite
effects. -/
structure Warns (rule other : Rule) (warning : ValidationWarning) : Prop where
  duplicate : warning = .duplicate other.id ↔ rule.tuple? = other.tuple?
  opposed : rule.tuple? ≠ other.tuple? → ∃ mine theirs, rule.kind = .ok (.permission mine) ∧
    other.kind = .ok (.permission theirs) ∧ mine.effect ≠ theirs.effect ∧
    warning = .opposed other.id mine.effect theirs.effect

variable {rule other : Rule} {kind otherKind : RuleKind} {now : Instant}

section Tuples

theorem matter?_of_kind (read : rule.kind = .ok kind) : rule.matter? = some kind.matter := by
  rw [matter?, read]
  rfl

theorem matter?_of_error {fault : RuleError} (unread : rule.kind = .error fault) :
    rule.matter? = none := by
  rw [matter?, unread]
  rfl

theorem tuple?_of_kind (read : rule.kind = .ok kind) :
    rule.tuple? = some (kind.tuple rule.service) := by
  rw [tuple?, read]
  rfl

theorem tuple?_of_error {fault : RuleError} (unread : rule.kind = .error fault) :
    rule.tuple? = none := by
  rw [tuple?, unread]
  rfl

/-- A name is read as one relation only, however the rules spell it. -/
theorem relation_eq_of_name_eq {mine theirs : Grouping} (read : rule.kind = .ok (.grouping mine))
    (readToo : other.kind = .ok (.grouping theirs))
    (same : mine.relation.name = theirs.relation.name) : mine.relation = theirs.relation := by
  have role := relation_eq_role_iff read
  have roleToo := relation_eq_role_iff readToo
  cases mineIs : mine.relation with
  | role =>
    rw [mineIs] at same
    exact (roleToo.mpr same.symm).symm
  | named name =>
    cases theirsIs : theirs.relation with
    | role =>
      rw [theirsIs] at same
      exact mineIs.symm.trans (role.mpr same)
    | named nameToo =>
      rw [mineIs, theirsIs] at same
      exact congrArg Relation.named same

/-- Rules of one tuple speak of one matter. -/
theorem matter?_eq_of_tuple?_eq (same : rule.tuple? = other.tuple?) :
    rule.matter? = other.matter? := by
  cases read : rule.kind with
  | error fault =>
    cases readToo : other.kind with
    | error faultToo => rw [matter?_of_error read, matter?_of_error readToo]
    | ok otherKind =>
      rw [tuple?_of_error read, tuple?_of_kind readToo] at same
      cases same
  | ok kind =>
    cases readToo : other.kind with
    | error fault =>
      rw [tuple?_of_kind read, tuple?_of_error readToo] at same
      cases same
    | ok otherKind =>
      rw [tuple?_of_kind read, tuple?_of_kind readToo, Option.some.injEq] at same
      rw [matter?_of_kind read, matter?_of_kind readToo, Option.some.injEq]
      cases kind with
      | permission mine =>
        cases otherKind with
        | permission theirs => simp_all [RuleKind.tuple, RuleKind.matter]
        | grouping theirs => simp [RuleKind.tuple] at same
      | grouping mine =>
        cases otherKind with
        | permission theirs => simp [RuleKind.tuple] at same
        | grouping theirs =>
          simp only [RuleKind.tuple, Tuple.grouping.injEq] at same
          obtain ⟨relation, member, group⟩ := same
          rw [RuleKind.matter, RuleKind.matter, relation_eq_of_name_eq read readToo relation, member,
            group]

/-- What compiles makes its tuple. -/
theorem tuple?_of_compile {made : Compiled} (compiles : rule.compile = .ok made) :
    rule.tuple? = some made.tuple := by
  cases made with
  | grant grant =>
    obtain ⟨held, ⟨read, _⟩, rfl⟩ := compile_eq_grant_iff.mp compiles
    exact tuple?_of_kind read
  | membership link =>
    obtain ⟨relation, read, named⟩ := compile_eq_membership_iff.mp compiles
    rw [tuple?_of_kind read, RuleKind.tuple, named]
    rfl

/-- Two rules that compile have one tuple exactly if an evaluator makes one entry of both. -/
theorem tuple?_eq_iff_of_compile {made held : Compiled} (compiles : rule.compile = .ok made)
    (compilesToo : other.compile = .ok held) : rule.tuple? = other.tuple? ↔ made = held := by
  rw [tuple?_of_compile compiles, tuple?_of_compile compilesToo, Option.some.injEq,
    Compiled.tuple_inj]

end Tuples

section Meets

theorem isRival_iff : Validator.isRival rule other now = true ↔
    (rule.id.isAssigned = true → other.id ≠ rule.id) ∧ other.tenant = rule.tenant ∧
      other.service = rule.service ∧ other.isActive now = true := by
  simp [Validator.isRival, and_assoc, imp_iff_not_or]

theorem meets_iff (read : rule.kind = .ok kind) : rule.Meets other now ↔
    Validator.isRival rule other now = true ∧ other.matter? = some kind.matter := by
  have mine := matter?_of_kind read
  rw [isRival_iff]
  constructor
  · rintro ⟨active, tenant, service, apart, _, matter⟩
    exact ⟨⟨apart, tenant, service, active⟩, matter.trans mine⟩
  · rintro ⟨⟨apart, tenant, service, active⟩, matter⟩
    exact ⟨active, tenant, service, apart, by rw [mine]; rfl, matter.trans mine.symm⟩

/-- Of two rules with different ids, both of which count, each meets the other or neither does. -/
theorem meets_comm (active : rule.isActive now = true) (activeToo : other.isActive now = true)
    (different : rule.id ≠ other.id) : rule.Meets other now ↔ other.Meets rule now := by
  constructor
  · rintro ⟨_, tenant, service, _, readable, matter⟩
    exact ⟨active, tenant.symm, service.symm, fun _ => different, matter ▸ readable, matter.symm⟩
  · rintro ⟨_, tenant, service, _, readable, matter⟩
    exact ⟨activeToo, tenant.symm, service.symm, fun _ => different.symm, matter ▸ readable,
      matter.symm⟩

end Meets

end Rule

namespace Validator

variable {rule other : Rule} {kind otherKind : RuleKind} {now : Instant}

theorem conflictOf_eq_none_iff (id : RuleId) :
    conflictOf kind otherKind id = none ↔ otherKind.matter ≠ kind.matter := by
  cases kind with
  | permission mine =>
    cases otherKind with
    | permission theirs =>
      unfold conflictOf
      dsimp only
      split
      · rename_i same
        split <;> simp [RuleKind.matter, same]
      · rename_i different
        simp only [RuleKind.matter, ne_eq, Matter.access.injEq, true_iff]
        exact fun ⟨subject, object, action⟩ => different ⟨subject.symm, object.symm, action.symm⟩
    | grouping theirs => simp [conflictOf, RuleKind.matter]
  | grouping mine =>
    cases otherKind with
    | permission theirs => simp [conflictOf, RuleKind.matter]
    | grouping theirs =>
      obtain ⟨_, _, _⟩ := mine
      obtain ⟨_, _, _⟩ := theirs
      simp [conflictOf, RuleKind.matter, eq_comm]

theorem warns_of_conflictOf (read : rule.kind = .ok kind) (readToo : other.kind = .ok otherKind)
    (service : other.service = rule.service) {warning : ValidationWarning}
    (told : conflictOf kind otherKind other.id = some warning) : rule.Warns other warning := by
  have mineIs := Rule.tuple?_of_kind read
  have theirsIs := Rule.tuple?_of_kind readToo
  cases kind with
  | permission mine =>
    cases otherKind with
    | permission theirs =>
      unfold conflictOf at told
      dsimp only at told
      split at told
      · rename_i same
        obtain ⟨subject, object, action⟩ := same
        have tuples : rule.tuple? = other.tuple? ↔ mine.effect = theirs.effect := by
          rw [mineIs, theirsIs]
          simp [RuleKind.tuple, subject, object, action, service]
        split at told
        · rename_i effects
          cases told
          exact ⟨iff_of_true rfl (tuples.mpr effects), fun differ => absurd (tuples.mpr effects) differ⟩
        · rename_i effects
          cases told
          exact ⟨iff_of_false nofun (effects ∘ tuples.mp),
            fun _ => ⟨mine, theirs, read, readToo, effects, rfl⟩⟩
      · cases told
    | grouping theirs => cases told
  | grouping mine =>
    cases otherKind with
    | permission theirs => cases told
    | grouping theirs =>
      unfold conflictOf at told
      dsimp only at told
      split at told
      · rename_i same
        subst same
        cases told
        have tuples : rule.tuple? = other.tuple? := by
          rw [mineIs, theirsIs]
          rfl
        exact ⟨iff_of_true rfl tuples, fun differ => absurd tuples differ⟩
      · cases told

theorem conflictWith_of_not_meets (read : rule.kind = .ok kind) (apart : ¬ rule.Meets other now) :
    conflictWith rule kind now other = none := by
  rw [Rule.meets_iff read, not_and] at apart
  unfold conflictWith
  split
  · rename_i rival
    cases readToo : other.kind with
    | error fault => rfl
    | ok otherKind =>
      have matters := apart rival
      rw [Rule.matter?_of_kind readToo, Option.some.injEq] at matters
      dsimp only
      rw [(conflictOf_eq_none_iff other.id).mpr matters]
      rfl
  · rfl

theorem conflictWith_of_meets (read : rule.kind = .ok kind) (meets : rule.Meets other now) :
    ∃ warning, conflictWith rule kind now other = some (other.id, warning) ∧
      rule.Warns other warning := by
  obtain ⟨rival, matter⟩ := (Rule.meets_iff read).mp meets
  rw [conflictWith, if_pos rival]
  cases readToo : other.kind with
  | error fault =>
    rw [Rule.matter?_of_error readToo] at matter
    cases matter
  | ok otherKind =>
    rw [Rule.matter?_of_kind readToo, Option.some.injEq] at matter
    have found := mt (conflictOf_eq_none_iff other.id).mp (not_not_intro matter)
    obtain ⟨warning, told⟩ := Option.ne_none_iff_exists'.mp found
    refine ⟨warning, ?_, warns_of_conflictOf read readToo meets.service told⟩
    dsimp only
    rw [told]
    rfl

/-- The scan passes the rules one by one: it keeps those that are met, with a warning for each. -/
theorem filterMap_conflictWith (read : rule.kind = .ok kind) (existing : List Rule) :
    (existing.filterMap (conflictWith rule kind now)).map Prod.fst =
      (existing.filter (rule.Meets · now)).map (·.id) ∧
    List.Forall₂ rule.Warns (existing.filter (rule.Meets · now))
      ((existing.filterMap (conflictWith rule kind now)).map Prod.snd) := by
  induction existing with
  | nil => exact ⟨rfl, .nil⟩
  | cons other rest ih =>
    by_cases meets : rule.Meets other now
    · obtain ⟨warning, found, warns⟩ := conflictWith_of_meets read meets
      rw [List.filterMap_cons_some found, List.filter_cons_of_pos (by simpa using meets)]
      exact ⟨congrArg (other.id :: ·) ih.1, .cons warns ih.2⟩
    · rw [List.filterMap_cons_none (conflictWith_of_not_meets read meets),
        List.filter_cons_of_neg (by simpa using meets)]
      exact ih

/-- What a report says of rules that exist: the ids of those that are met, in their order, and one warning
for each after those that are there without them. The errors are the same against any rules. -/
structure Compares (validator : Validator) (rule : Rule) (existing : List Rule) (now : Instant) :
    Prop where
  conflicts : (validator.validate rule (some existing) now).conflicts =
    (existing.filter (rule.Meets · now)).map (·.id)
  warnings : ∃ told, (validator.validate rule (some existing) now).warnings =
      (validator.validate rule none now).warnings ++ told ∧
    List.Forall₂ rule.Warns (existing.filter (rule.Meets · now)) told
  errors : ∀ others, (validator.validate rule (some existing) now).errors =
    (validator.validate rule others now).errors
  valid : ∀ others, (validator.validate rule (some existing) now).valid =
    (validator.validate rule others now).valid

theorem warnings_validate_none (validator : Validator) (rule : Rule) (now : Instant) :
    (validator.validate rule none now).warnings = stateWarnings rule now := by
  have nothing : conflicts rule none now = [] := by
    unfold conflicts
    split
    · contradiction
    · rfl
  simp [validate, nothing]

theorem conflicts_of_error {fault : RuleError} (unread : rule.kind = .error fault)
    (existing : Option (List Rule)) : conflicts rule existing now = [] := by
  unfold conflicts
  rw [unread]

theorem compares (validator : Validator) (rule : Rule) (existing : List Rule) (now : Instant) :
    validator.Compares rule existing now := by
  have scan : ((conflicts rule (some existing) now).map Prod.fst =
        (existing.filter (rule.Meets · now)).map (·.id)) ∧
      List.Forall₂ rule.Warns (existing.filter (rule.Meets · now))
        ((conflicts rule (some existing) now).map Prod.snd) := by
    cases read : rule.kind with
    | ok kind =>
      have scanned : conflicts rule (some existing) now =
          existing.filterMap (conflictWith rule kind now) := by
        unfold conflicts
        rw [read]
      rw [scanned]
      exact filterMap_conflictWith read existing
    | error fault =>
      have nothing : existing.filter (rule.Meets · now) = [] := by
        rw [List.filter_eq_nil_iff]
        intro other _ meets
        have readable := (of_decide_eq_true meets).readable
        rw [Rule.matter?_of_error read] at readable
        cases readable
      rw [conflicts_of_error read, nothing]
      exact ⟨rfl, .nil⟩
  refine ⟨scan.1, ⟨_, ?_, scan.2⟩, fun _ => rfl, fun _ => rfl⟩
  rw [warnings_validate_none]
  rfl

/-- The rule is one of the rules, and the only one with its id. -/
structure Lists (rules : List Rule) (rule : Rule) : Prop where
  listed : rule ∈ rules
  only : ∀ other ∈ rules, other.id = rule.id → other = rule

theorem mem_conflicts_iff {others : List Rule} (lists : Lists others other) (validator : Validator) :
    other.id ∈ (validator.validate rule (some others) now).conflicts ↔ rule.Meets other now := by
  rw [(validator.compares rule others now).conflicts, List.mem_map]
  constructor
  · rintro ⟨one, met, same⟩
    obtain ⟨member, meets⟩ := List.mem_filter.mp met
    rw [← lists.only one member same]
    exact of_decide_eq_true meets
  · exact fun meets => ⟨other, List.mem_filter.mpr ⟨lists.listed, decide_eq_true meets⟩, rfl⟩

theorem lists_of_nodup {rules : List Rule} (distinct : (rules.map (·.id)).Nodup)
    (listed : rule ∈ rules) : Lists rules rule :=
  ⟨listed, fun _ member same => List.inj_on_of_nodup_map distinct member listed same⟩

/-- Conflicts are found by comparing tuples, and both ways alike. -/
theorem validate_compares_tuples (validator : Validator) (rule : Rule) (now : Instant) :
    (∀ existing, validator.Compares rule existing now) ∧
    (∀ fault, rule.kind = .error fault → ∀ existing,
      (validator.validate rule existing now).conflicts = []) ∧
    (∀ other : Rule, rule.tuple? = other.tuple? → rule.matter? = other.matter?) ∧
    (∀ (other : Rule) made held, rule.compile = .ok made → other.compile = .ok held →
      (rule.tuple? = other.tuple? ↔ made = held)) ∧
    ∀ other, rule.isActive now = true → other.isActive now = true → rule.id ≠ other.id →
      ∀ rules others, Lists rules rule → Lists others other →
        (other.id ∈ (validator.validate rule (some others) now).conflicts ↔
          rule.id ∈ (validator.validate other (some rules) now).conflicts) := by
  refine ⟨fun existing => validator.compares rule existing now, ?_, ?_, ?_, ?_⟩
  · intro fault unread existing
    exact congrArg (List.map Prod.fst) (conflicts_of_error unread existing)
  · exact fun other => Rule.matter?_eq_of_tuple?_eq
  · exact fun other made held => Rule.tuple?_eq_iff_of_compile
  · intro other active activeToo different rules others lists listsToo
    rw [mem_conflicts_iff listsToo, mem_conflicts_iff lists]
    exact Rule.meets_comm active activeToo different

section Editors

/-- The editor may write documents, as a rule of a spelling under an id. -/
def editorWrites (id : UInt64) (ptype effect : String) : Rule :=
  { Rule.blank ⟨7⟩ "cms" ptype .epoch with
    id := ⟨id⟩
    v0 := "editor"
    v1 := "/docs/*"
    v2 := "write"
    v3 := effect }

/-- Rules that deny and allow the same, one that is disabled, one of another service, and one that cannot be
read. -/
def editorRules : List Rule :=
  [editorWrites 1 "p" "deny", editorWrites 2 "permission" "allow",
    { editorWrites 4 "p" "deny" with status := .disabled },
    { editorWrites 5 "p" "deny" with service := "billing" }, editorWrites 6 "p" "ALLOW",
    editorWrites 9 "p" ""]

theorem conflicts_of_editorWrites :
    (standard.validate (editorWrites 9 "p" "") (some editorRules) .epoch).conflicts = [⟨1⟩, ⟨2⟩] ∧
    (standard.validate (editorWrites 6 "p" "ALLOW") (some editorRules) .epoch).conflicts = [] ∧
    ((editorWrites 9 "p" "").tuple? = (editorWrites 2 "permission" "allow").tuple? ↔
      Compiled.grant ⟨"editor", "cms", "/docs/*", "write", .allow⟩ =
        .grant ⟨"editor", "cms", "/docs/*", "write", .allow⟩) ∧
    (⟨2⟩ ∈ (standard.validate (editorWrites 9 "p" "") (some editorRules) .epoch).conflicts ↔
      ⟨9⟩ ∈ (standard.validate (editorWrites 2 "permission" "allow") (some editorRules)
        .epoch).conflicts) := by
  obtain ⟨compares, _, _, compiled, alike⟩ :=
    validate_compares_tuples standard (editorWrites 9 "p" "") .epoch
  have unread := (validate_compares_tuples standard (editorWrites 6 "p" "ALLOW") .epoch).2.1
  refine ⟨?_, ?_, ?_, ?_⟩
  · exact (compares editorRules).conflicts.trans (by decide +kernel)
  · exact unread (.badEffect "ALLOW") (by decide +kernel) (some editorRules)
  · exact compiled (editorWrites 2 "permission" "allow") _ _ (by decide +kernel) (by decide +kernel)
  · exact alike (editorWrites 2 "permission" "allow") (by decide) (by decide) (by decide) editorRules
      editorRules (lists_of_nodup (by decide) (by simp [editorRules]))
      (lists_of_nodup (by decide) (by simp [editorRules]))

end Editors

end Validator

end AccessPolicy
