import AccessPolicy.Proofs.CacheKey.Tenancy

/-!
Which keys a glob matches. A glob that names a tenant and nothing before its segment matches the keys
with just this segment there; a star before the segment lets it stand at any later place but the last,
since a star takes colons too.
-/
namespace AccessPolicy.CacheKey

section Segments

variable {segment first rest text : List Char}

/-- The text begins with a segment and a colon. -/
def Leads (segment text : List Char) : Prop :=
  ∃ rest, text = segment ++ ':' :: rest

/-- A segment stands between two colons of the text. -/
def Between (segment text : List Char) : Prop :=
  ∃ part rest, text = part ++ ':' :: rest ∧ Leads segment rest

theorem leads_iff (plain : ':' ∉ segment) (plainFirst : ':' ∉ first) :
    Leads segment (first ++ ':' :: rest) ↔ first = segment := by
  constructor
  · rintro ⟨others, same⟩
    exact eq_of_append_separator plainFirst plain same
  · rintro rfl
    exact ⟨rest, rfl⟩

theorem not_leads_of_plain (plain : ':' ∉ text) : ¬ Leads segment text := by
  rintro ⟨rest, rfl⟩
  simp at plain

theorem not_between_of_plain (plain : ':' ∉ text) : ¬ Between segment text := by
  rintro ⟨part, rest, rfl, _⟩
  simp at plain

/-- The first of two colons is the one after the first segment, or a later one. -/
theorem between_iff (plain : ':' ∉ first) :
    Between segment (first ++ ':' :: rest) ↔ Leads segment rest ∨ Between segment rest := by
  constructor
  · rintro ⟨part, others, same, leads⟩
    rcases List.append_eq_append_iff.mp same with ⟨more, rfl, cut⟩ | ⟨more, rfl, cut⟩
    · cases more with
      | nil =>
        cases cut
        exact Or.inl leads
      | cons char more =>
        cases cut
        exact Or.inr ⟨more, others, rfl, leads⟩
    · cases more with
      | nil =>
        cases cut
        exact Or.inl leads
      | cons char more =>
        cases cut
        simp at plain
  · rintro (leads | ⟨part, others, rfl, leads⟩)
    · exact ⟨first, rest, rfl, leads⟩
    · exact ⟨first ++ ':' :: part, others, by simp, leads⟩

/-- A segment in a glob and a star match what begins with the segment. -/
theorem matches_leads_iff :
    (Glob.parse (segment.flatMap Glob.escapeChar ++ [':', '*'])).Matches text ↔
      Leads segment text := by
  have ending : Glob.parse [':', '*'] = [':'].map Glob.literal ++ [Glob.star] := by decide
  rw [Glob.parse_escape, Glob.matches_literals, ending]
  simp only [Glob.matches_literals, Glob.matches_star]
  constructor
  · rintro ⟨_, rfl, rest, rfl, _⟩
    exact ⟨rest, rfl⟩
  · rintro ⟨rest, rfl⟩
    exact ⟨_, rfl, rest, rfl, rest, [], (List.append_nil rest).symm, rfl⟩

/-- With a star and a colon before it, the segment is matched wherever it stands between colons. -/
theorem matches_between_iff :
    (Glob.parse ('*' :: ':' :: (segment.flatMap Glob.escapeChar ++ [':', '*']))).Matches text ↔
      Between segment text := by
  have colon (chars : List Char) : Glob.parse (':' :: chars) =
      [':'].map Glob.literal ++ Glob.parse chars := Glob.parse_cons (by decide) chars
  rw [Glob.parse, Glob.matches_star, colon]
  simp only [Glob.matches_literals, matches_leads_iff]
  constructor
  · rintro ⟨part, _, rfl, rest, rfl, leads⟩
    exact ⟨part, rest, rfl, leads⟩
  · rintro ⟨part, rest, rfl, leads⟩
    exact ⟨part, _, rfl, rest, rfl, leads⟩

end Segments

theorem encode_toList_inj {one other : String} :
    (encode one).toList = (encode other).toList ↔ one = other :=
  ⟨fun same => encode_injective (String.toList_injective same), fun same => by rw [same]⟩

/-- The service leads the rest of a decision's key. -/
theorem leads_decisionTail_iff {about : DecisionSubject} {service : String} :
    Leads (encode service).toList (decisionTail about) ↔ about.service = service := by
  unfold decisionTail
  rw [leads_iff (colon_not_mem_encode _) (colon_not_mem_encode _), encode_toList_inj]

/-- What stands between two colons of it is the subject or the object. -/
theorem between_decisionTail_iff {about : DecisionSubject} {segment : String} :
    Between (encode segment).toList (decisionTail about) ↔
      about.subject = segment ∨ about.object = segment := by
  have plain (text : String) : ':' ∉ (encode text).toList := colon_not_mem_encode text
  unfold decisionTail
  rw [between_iff (plain _), between_iff (plain _), between_iff (plain _),
    leads_iff (plain _) (plain _), leads_iff (plain _) (plain _), encode_toList_inj,
    encode_toList_inj]
  simp only [not_leads_of_plain (plain _), not_between_of_plain (plain _), or_false]

section Globs

variable {tenant owner : TenantId} {about : DecisionSubject} {service subject member glob : String}
variable {rest : List Char}

/-- A glob that names a kind and a tenant matches, of the keys of that kind, those of the tenant whose
rest the rest of the glob matches. -/
theorem accepts_iff_of_head {segments : List String} (some_segment : segments ≠ [])
    (plain : isPlain segments = true) {key : String} {tail : List Char}
    (written : glob.toList = head segments tenant ++ rest)
    (keyed : key.toList = head segments owner ++ tail) :
    Glob.accepts glob key = true ↔ owner = tenant ∧ (Glob.parse rest).Matches tail := by
  have read := parse_head plain tenant rest
  rw [← written] at read
  rw [Glob.accepts_iff_of_literals read, keyed]
  constructor
  · rintro ⟨others, same, later⟩
    obtain rfl : owner = tenant := tenant_eq_of_head segments some_segment
      (List.prefix_append (head segments owner) tail) (same ▸ List.prefix_append _ others)
    rw [List.append_cancel_left same]
    exact ⟨rfl, later⟩
  · rintro ⟨rfl, later⟩
    exact ⟨tail, rfl, later⟩

theorem accepts_iff_of_kind {segments : List String} (plain : isPlain segments = true) {key : String}
    {tail : List Char} (written : glob.toList = kind segments ++ rest)
    (keyed : key.toList = kind segments ++ tail) :
    Glob.accepts glob key = true ↔ (Glob.parse rest).Matches tail := by
  have read := parse_kind plain rest
  rw [← written] at read
  rw [Glob.accepts_iff_of_literals read, keyed]
  constructor
  · rintro ⟨others, same, later⟩
    rwa [List.append_cancel_left same]
  · exact fun later => ⟨tail, rfl, later⟩

theorem matches_any (text : List Char) : (Glob.parse ['*']).Matches text :=
  Glob.matches_star.mpr ⟨text, [], (List.append_nil text).symm, rfl⟩

theorem kind_prefix_roles (tenant : TenantId) (subject : String) :
    kind rolesSegments <+: (roles tenant subject).toList :=
  (kind_prefix_head _ (by decide) tenant).trans ⟨_, (roles_toList tenant subject).symm⟩

theorem kind_prefix_decision (about : DecisionSubject) :
    kind decisionSegments <+: (decision about).toList :=
  (kind_prefix_head _ (by decide) about.tenant).trans ⟨_, (decision_toList about).symm⟩

/-- A glob over decisions matches no key of a role set. -/
theorem decisions_miss_roles (written : glob.toList = kind decisionSegments ++ rest) :
    ¬ Glob.accepts glob (roles tenant subject) = true := fun accepted =>
  kinds_apart (kind_prefix_of_accepts (by decide) written accepted)
    (kind_prefix_roles tenant subject)

theorem roles_miss_decisions (written : glob.toList = kind rolesSegments ++ rest) :
    ¬ Glob.accepts glob (decision about) = true := fun accepted =>
  kinds_apart (kind_prefix_decision about) (kind_prefix_of_accepts (by decide) written accepted)

/-- A glob over the decisions of a tenant is one over decisions. -/
theorem toList_of_head {segments : List String} (some_segment : segments ≠ [])
    (written : glob.toList = head segments tenant ++ rest) :
    glob.toList = kind segments ++ (tenant.text.toList ++ [':'] ++ rest) := by
  rw [written, head_eq segments some_segment, List.append_assoc]

theorem subjectGlob_accepts_decision :
    Glob.accepts (subjectGlob tenant subject) (decision about) = true ↔
      about.tenant = tenant ∧ (about.subject = subject ∨ about.object = subject) := by
  rw [accepts_iff_of_head (by decide) (by decide) (subjectGlob_toList tenant subject)
    (decision_toList about), matches_between_iff, between_decisionTail_iff]

theorem subjectGlob_misses_roles :
    ¬ Glob.accepts (subjectGlob tenant subject) (roles owner member) = true :=
  decisions_miss_roles (toList_of_head (by decide) (subjectGlob_toList tenant subject))

theorem serviceGlob_accepts_decision :
    Glob.accepts (serviceGlob tenant service) (decision about) = true ↔
      about.tenant = tenant ∧ about.service = service := by
  rw [accepts_iff_of_head (by decide) (by decide) (serviceGlob_toList tenant service)
    (decision_toList about), matches_leads_iff, leads_decisionTail_iff]

theorem serviceGlob_misses_roles :
    ¬ Glob.accepts (serviceGlob tenant service) (roles owner member) = true :=
  decisions_miss_roles (toList_of_head (by decide) (serviceGlob_toList tenant service))

/-- A service in any tenant is also looked for among subjects and objects. -/
theorem anyServiceGlob_accepts_decision :
    Glob.accepts (anyServiceGlob service) (decision about) = true ↔
      about.service = service ∨ about.subject = service ∨ about.object = service := by
  have keyed : (decision about).toList = kind decisionSegments ++
      (about.tenant.text.toList ++ ':' :: decisionTail about) := by
    rw [toList_of_head (by decide) (decision_toList about), List.append_assoc]
    rfl
  rw [accepts_iff_of_kind (by decide) (anyServiceGlob_toList service) keyed, matches_between_iff,
    between_iff (colon_not_mem_tenant _), leads_decisionTail_iff, between_decisionTail_iff]

theorem anyServiceGlob_misses_roles :
    ¬ Glob.accepts (anyServiceGlob service) (roles owner member) = true :=
  decisions_miss_roles (anyServiceGlob_toList service)

theorem tenantDecisionsGlob_accepts_decision :
    Glob.accepts (tenantDecisionsGlob tenant) (decision about) = true ↔ about.tenant = tenant := by
  rw [accepts_iff_of_head (by decide) (by decide) (tenantDecisionsGlob_toList tenant)
    (decision_toList about)]
  exact and_iff_left (matches_any _)

theorem tenantDecisionsGlob_misses_roles :
    ¬ Glob.accepts (tenantDecisionsGlob tenant) (roles owner member) = true :=
  decisions_miss_roles (toList_of_head (by decide) (tenantDecisionsGlob_toList tenant))

theorem tenantRolesGlob_accepts_roles :
    Glob.accepts (tenantRolesGlob tenant) (roles owner member) = true ↔ owner = tenant := by
  rw [accepts_iff_of_head (by decide) (by decide) (tenantRolesGlob_toList tenant)
    (roles_toList owner member)]
  exact and_iff_left (matches_any _)

theorem tenantRolesGlob_misses_decisions :
    ¬ Glob.accepts (tenantRolesGlob tenant) (decision about) = true :=
  roles_miss_decisions (toList_of_head (by decide) (tenantRolesGlob_toList tenant))

theorem decisionsGlob_accepts_decision : Glob.accepts decisionsGlob (decision about) = true := by
  obtain ⟨tail, keyed⟩ := kind_prefix_decision about
  exact (accepts_iff_of_kind (by decide) decisionsGlob_toList keyed.symm).mpr (matches_any tail)

theorem rolesGlob_accepts_roles : Glob.accepts rolesGlob (roles tenant subject) = true := by
  obtain ⟨tail, keyed⟩ := kind_prefix_roles tenant subject
  exact (accepts_iff_of_kind (by decide) rolesGlob_toList keyed.symm).mpr (matches_any tail)

end Globs

end AccessPolicy.CacheKey
