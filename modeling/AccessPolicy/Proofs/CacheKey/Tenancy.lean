import AccessPolicy.Proofs.CacheKey

/-!
Keys of one tenant. A key belongs to the tenant that it names, and to no other, whatever stands in
its other segments; a glob of a tenant matches only keys that belong to it.
-/
namespace AccessPolicy.CacheKey

/-- The key begins as the decisions or the role sets of the tenant do. -/
def BelongsTo (key : String) (tenant : TenantId) : Prop :=
  head decisionSegments tenant <+: key.toList ∨ head rolesSegments tenant <+: key.toList

theorem decision_belongs (about : DecisionSubject) : BelongsTo (decision about) about.tenant :=
  Or.inl ⟨_, (decision_toList about).symm⟩

theorem roles_belongs (tenant : TenantId) (subject : String) :
    BelongsTo (roles tenant subject) tenant :=
  Or.inr ⟨_, (roles_toList tenant subject).symm⟩

section Unique

variable {one other : TenantId} {chars : List Char}

theorem tenant_eq_of_head (segments : List String) (some_segment : segments ≠ [])
    (before : head segments one <+: chars) (beforeToo : head segments other <+: chars) :
    one = other := by
  obtain ⟨rest, written⟩ := before
  obtain ⟨tail, writtenToo⟩ := beforeToo
  rw [head_eq segments some_segment, List.append_assoc] at written writtenToo
  have ends := List.append_cancel_left (written.trans writtenToo.symm)
  rw [List.append_assoc, List.append_assoc] at ends
  have texts := eq_of_append_separator (colon_not_mem_tenant one) (colon_not_mem_tenant other) ends
  exact TenantId.text_injective (String.toList_injective texts)

/-- A key of a decision does not begin as a role set does. -/
theorem kinds_apart (before : kind decisionSegments <+: chars)
    (beforeToo : kind rolesSegments <+: chars) : False := by
  rcases List.prefix_or_prefix_of_prefix before beforeToo with within | within
  · exact absurd within (by decide)
  · exact absurd within (by decide)

theorem kind_prefix_head (segments : List String) (some_segment : segments ≠ []) (tenant : TenantId) :
    kind segments <+: head segments tenant :=
  ⟨_, (head_eq segments some_segment tenant).symm⟩

theorem heads_apart (before : head decisionSegments one <+: chars)
    (beforeToo : head rolesSegments other <+: chars) : False :=
  kinds_apart ((kind_prefix_head _ (by decide) one).trans before)
    ((kind_prefix_head _ (by decide) other).trans beforeToo)

theorem tenant_unique {key : String} (belongs : BelongsTo key one) (belongsToo : BelongsTo key other) :
    one = other := by
  rcases belongs with decides | lists
  · rcases belongsToo with decidesToo | listsToo
    · exact tenant_eq_of_head _ (by decide) decides decidesToo
    · exact (heads_apart decides listsToo).elim
  · rcases belongsToo with decidesToo | listsToo
    · exact (heads_apart decidesToo lists).elim
    · exact tenant_eq_of_head _ (by decide) lists listsToo

end Unique

section Globs

variable {tenant : TenantId} {key : String}

/-- What a glob matches begins as the glob does, up to the first special character. -/
theorem kind_prefix_of_accepts {segments : List String} (plain : isPlain segments = true)
    {glob : String} {rest : List Char} (written : glob.toList = kind segments ++ rest)
    (accepted : Glob.accepts glob key = true) : kind segments <+: key.toList := by
  have read := parse_kind plain rest
  rw [← written] at read
  obtain ⟨tail, same, _⟩ := (Glob.accepts_iff_of_literals read).mp accepted
  exact ⟨tail, same.symm⟩

theorem head_prefix_of_accepts {segments : List String} (plain : isPlain segments = true)
    {glob : String} {rest : List Char} (written : glob.toList = head segments tenant ++ rest)
    (accepted : Glob.accepts glob key = true) : head segments tenant <+: key.toList := by
  have read := parse_head plain tenant rest
  rw [← written] at read
  obtain ⟨tail, same, _⟩ := (Glob.accepts_iff_of_literals read).mp accepted
  exact ⟨tail, same.symm⟩

theorem belongs_of_subjectGlob {subject : String}
    (accepted : Glob.accepts (subjectGlob tenant subject) key = true) : BelongsTo key tenant :=
  Or.inl (head_prefix_of_accepts (by decide) (subjectGlob_toList tenant subject) accepted)

theorem belongs_of_serviceGlob {service : String}
    (accepted : Glob.accepts (serviceGlob tenant service) key = true) : BelongsTo key tenant :=
  Or.inl (head_prefix_of_accepts (by decide) (serviceGlob_toList tenant service) accepted)

theorem belongs_of_tenantDecisionsGlob
    (accepted : Glob.accepts (tenantDecisionsGlob tenant) key = true) : BelongsTo key tenant :=
  Or.inl (head_prefix_of_accepts (by decide) (tenantDecisionsGlob_toList tenant) accepted)

theorem belongs_of_tenantRolesGlob
    (accepted : Glob.accepts (tenantRolesGlob tenant) key = true) : BelongsTo key tenant :=
  Or.inr (head_prefix_of_accepts (by decide) (tenantRolesGlob_toList tenant) accepted)

end Globs

end AccessPolicy.CacheKey
