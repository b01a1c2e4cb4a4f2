import AccessPolicy.Decision
import AccessPolicy.Proofs.Glob
import AccessPolicy.Proofs.Text.Number

/-!
Keys have one reading. A key and a glob begin with their kind, most of them with a tenant, in which no
character is special.
-/
namespace AccessPolicy

theorem TenantId.text_injective {one other : TenantId} (same : one.text = other.text) :
    one = other := by
  have digits := Text.decimal_injective (String.ofList_injective same)
  have value : one.value = other.value := UInt64.toNat_inj.mp digits
  cases one
  cases other
  exact congrArg TenantId.mk value

namespace CacheKey

section Segments

/-- Reads what was written for a segment. -/
def decode : List Char → List Char
  | '%' :: '2' :: '5' :: rest => '%' :: decode rest
  | '%' :: '3' :: 'A' :: rest => ':' :: decode rest
  | char :: rest => char :: decode rest
  | [] => []

theorem decode_encode (chars : List Char) : decode (chars.flatMap encodeChar) = chars := by
  induction chars with
  | nil => rfl
  | cons char rest ih =>
    rw [List.flatMap_cons, encodeChar]
    split
    · rename_i percent
      rw [percent, ← ih]
      simp only [List.cons_append, List.nil_append, decode, ih]
    · rename_i not_percent
      split
      · rename_i colon
        rw [colon, ← ih]
        simp only [List.cons_append, List.nil_append, decode, ih]
      · rw [List.singleton_append, decode, ih]
        · simp [not_percent]
        · simp [not_percent]

theorem encode_injective {one other : String} (same : encode one = encode other) : one = other := by
  have chars := congrArg decode (String.ofList_injective same)
  rw [decode_encode, decode_encode] at chars
  exact String.toList_injective chars

theorem colon_not_mem_encode (segment : String) : ':' ∉ (encode segment).toList := by
  rw [encode, String.toList_ofList, List.mem_flatMap]
  rintro ⟨char, _, present⟩
  unfold encodeChar at present
  split at present
  · simp at present
  · split at present
    · simp at present
    · rename_i not_colon
      exact not_colon (List.mem_singleton.mp present).symm

theorem colon_not_mem_tenant (tenant : TenantId) : ':' ∉ tenant.text.toList := by
  rw [TenantId.text, String.toList_ofList]
  intro present
  exact absurd (Text.isDigit_of_mem_decimal present) (by decide)

/-- Segments without colons are determined by the key that they make. -/
theorem join_injective {one other : List String} (plain : ∀ segment ∈ one, ':' ∉ segment.toList)
    (plainOther : ∀ segment ∈ other, ':' ∉ segment.toList) (some_segment : one ≠ [])
    (some_other : other ≠ []) (same : join one = join other) : one = other := by
  have chars := congrArg String.toList same
  have split {segments : List String} (colonless : ∀ segment ∈ segments, ':' ∉ segment.toList)
      (nonempty : segments ≠ []) : (join segments).toList.splitOn ':' =
        segments.map String.toList := by
    have separated : (join segments).toList = [':'].intercalate (segments.map String.toList) :=
      String.toList_intercalate
    rw [separated, List.splitOn_intercalate]
    · simpa using colonless
    · simpa using nonempty
  have parts : one.map String.toList = other.map String.toList := by
    rw [← split plain some_segment, ← split plainOther some_other, chars]
  exact (List.map_inj_right (fun _ _ equal => String.toList_injective equal)).mp parts

end Segments

section Keys

theorem colonless_decision (about : DecisionSubject) : ∀ segment ∈ decisionSegments ++
    [about.tenant.text, encode about.service, encode about.subject, encode about.object,
      encode about.action], ':' ∉ segment.toList := by
  simp only [decisionSegments, List.cons_append, List.nil_append, List.forall_mem_cons]
  exact ⟨by decide, by decide, colon_not_mem_tenant _, colon_not_mem_encode _,
    colon_not_mem_encode _, colon_not_mem_encode _, colon_not_mem_encode _, by simp⟩

theorem colonless_roles (tenant : TenantId) (subject : String) :
    ∀ segment ∈ rolesSegments ++ [tenant.text, encode subject], ':' ∉ segment.toList := by
  simp only [rolesSegments, List.cons_append, List.nil_append, List.forall_mem_cons]
  exact ⟨by decide, by decide, colon_not_mem_tenant _, colon_not_mem_encode _, by simp⟩

theorem decision_injective {one other : DecisionSubject} (same : decision one = decision other) :
    one = other := by
  have parts := join_injective (colonless_decision one) (colonless_decision other) (by simp)
    (by simp) same
  simp only [List.append_cancel_left_eq, List.cons.injEq, and_true] at parts
  obtain ⟨tenant, service, subject, object, action⟩ := parts
  cases one
  cases other
  rw [DecisionSubject.mk.injEq]
  exact ⟨TenantId.text_injective tenant, encode_injective service, encode_injective subject,
    encode_injective object, encode_injective action⟩

theorem roles_injective {tenant other : TenantId} {subject member : String}
    (same : roles tenant subject = roles other member) : tenant = other ∧ subject = member := by
  have parts := join_injective (colonless_roles tenant subject) (colonless_roles other member)
    (by simp) (by simp) same
  simp only [List.append_cancel_left_eq, List.cons.injEq, and_true] at parts
  exact ⟨TenantId.text_injective parts.1, encode_injective parts.2⟩

theorem decision_ne_roles (about : DecisionSubject) (tenant : TenantId) (subject : String) :
    decision about ≠ roles tenant subject := by
  intro same
  have parts := join_injective (colonless_decision about) (colonless_roles tenant subject)
    (by simp) (by simp) same
  have lengths := congrArg List.length parts
  simp [decisionSegments, rolesSegments] at lengths

/-- Decisions share a key exactly if the same is asked in the same tenant, role sets if they are of the
same subject in the same tenant, and a decision and a role set never do. -/
theorem keys_identify (one other : CheckRequest) (tenant owner : TenantId)
    (subject member : String) :
    (decision one.about = decision other.about ↔
      one.tenant = other.tenant ∧ one.service = other.service ∧ one.subject = other.subject ∧
        one.object = other.object ∧ one.action = other.action) ∧
    (roles tenant subject = roles owner member ↔ tenant = owner ∧ subject = member) ∧
    decision one.about ≠ roles tenant subject := by
  refine ⟨?_, ?_, decision_ne_roles one.about tenant subject⟩
  · calc
      decision one.about = decision other.about ↔ one.about = other.about :=
        ⟨decision_injective, congrArg decision⟩
      _ ↔ _ := by simp only [CheckRequest.about, DecisionSubject.mk.injEq]
  · constructor
    · exact roles_injective
    · rintro ⟨rfl, rfl⟩
      rfl

end Keys

section Globs

theorem special_not_mem_tenant {tenant : TenantId} {char : Char}
    (present : char ∈ tenant.text.toList) : Glob.isSpecial char = false := by
  rw [TenantId.text, String.toList_ofList] at present
  have digit := Text.isDigit_of_mem_decimal present
  rw [Text.isDigit_eq, Char.isDigit, Bool.and_eq_true, decide_eq_true_eq, decide_eq_true_eq] at digit
  have bounds : 48 ≤ char.toNat ∧ char.toNat ≤ 57 := digit
  have digits : ∀ code ≤ 57, 48 ≤ code → Glob.isSpecial (Char.ofNat code) = false := by decide
  rw [← Char.ofNat_toNat char]
  exact digits char.toNat bounds.2 bounds.1

/-- The key of a decision after the segments of its tenant. -/
def decisionTail (about : DecisionSubject) : List Char :=
  (encode about.service).toList ++ ':' :: ((encode about.subject).toList ++
    ':' :: ((encode about.object).toList ++ ':' :: (encode about.action).toList))

/-- What the keys of a tenant begin with. -/
def head (segments : List String) (tenant : TenantId) : List Char :=
  (join (segments ++ [tenant.text])).toList ++ [':']

theorem join_singleton_toList (segment : String) : (join [segment]).toList = segment.toList := by
  rw [join, String.intercalate_singleton]

theorem join_cons_toList (segment next : String) (rest : List String) :
    (join (segment :: next :: rest)).toList =
      segment.toList ++ ':' :: (join (next :: rest)).toList := by
  have colon : ":".toList = [':'] := rfl
  rw [join, String.intercalate_cons_cons, String.toList_append, String.toList_append, colon]
  simp only [List.append_assoc, List.cons_append, List.nil_append, join]

theorem join_head_toList (segments : List String) (tenant : TenantId) {rest : List String}
    (more : rest ≠ []) : (join (segments ++ tenant.text :: rest)).toList =
      head segments tenant ++ (join rest).toList := by
  have colon : ":".toList = [':'] := rfl
  rw [← List.singleton_append, ← List.append_assoc, join,
    String.intercalate_append_of_ne_nil (by simp) more, String.toList_append,
    String.toList_append, colon]
  rfl

theorem decision_toList (about : DecisionSubject) :
    (decision about).toList = head decisionSegments about.tenant ++ decisionTail about := by
  rw [decision, join_head_toList _ _ (by simp)]
  simp only [decisionTail, join_cons_toList, join_singleton_toList]

theorem roles_toList (tenant : TenantId) (subject : String) :
    (roles tenant subject).toList = head rolesSegments tenant ++ (encode subject).toList := by
  rw [roles, join_head_toList _ _ (by simp), join_singleton_toList]

theorem star_toList : "*".toList = ['*'] := rfl

theorem subjectGlob_toList (tenant : TenantId) (subject : String) :
    (subjectGlob tenant subject).toList = head decisionSegments tenant ++
      '*' :: ':' :: ((encode subject).toList.flatMap Glob.escapeChar ++ [':', '*']) := by
  rw [subjectGlob, join_head_toList _ _ (by simp)]
  simp only [join_cons_toList, join_singleton_toList, star_toList, globSegment, Glob.escape,
    String.toList_ofList, List.cons_append, List.nil_append]

theorem serviceGlob_toList (tenant : TenantId) (service : String) :
    (serviceGlob tenant service).toList = head decisionSegments tenant ++
      ((encode service).toList.flatMap Glob.escapeChar ++ [':', '*']) := by
  rw [serviceGlob, join_head_toList _ _ (by simp)]
  simp only [join_cons_toList, join_singleton_toList, star_toList, globSegment, Glob.escape,
    String.toList_ofList]

theorem tenantDecisionsGlob_toList (tenant : TenantId) :
    (tenantDecisionsGlob tenant).toList = head decisionSegments tenant ++ ['*'] := by
  rw [tenantDecisionsGlob, join_head_toList _ _ (by simp), join_singleton_toList, star_toList]

theorem tenantRolesGlob_toList (tenant : TenantId) :
    (tenantRolesGlob tenant).toList = head rolesSegments tenant ++ ['*'] := by
  rw [tenantRolesGlob, join_head_toList _ _ (by simp), join_singleton_toList, star_toList]

/-- What the keys of a kind begin with. -/
def kind (segments : List String) : List Char :=
  (join segments).toList ++ [':']

theorem join_kind_toList {segments rest : List String} (some_segment : segments ≠ [])
    (more : rest ≠ []) : (join (segments ++ rest)).toList = kind segments ++ (join rest).toList := by
  have colon : ":".toList = [':'] := rfl
  rw [join, String.intercalate_append_of_ne_nil some_segment more, String.toList_append,
    String.toList_append, colon]
  rfl

theorem head_eq (segments : List String) (some_segment : segments ≠ []) (tenant : TenantId) :
    head segments tenant = kind segments ++ (tenant.text.toList ++ [':']) := by
  rw [head, join_kind_toList some_segment (by simp), join_singleton_toList, List.append_assoc]

theorem decisionsGlob_toList : decisionsGlob.toList = kind decisionSegments ++ ['*'] := by
  rw [decisionsGlob, join_kind_toList (by decide) (by simp), join_singleton_toList, star_toList]

theorem rolesGlob_toList : rolesGlob.toList = kind rolesSegments ++ ['*'] := by
  rw [rolesGlob, join_kind_toList (by decide) (by simp), join_singleton_toList, star_toList]

theorem anyServiceGlob_toList (service : String) :
    (anyServiceGlob service).toList = kind decisionSegments ++
      '*' :: ':' :: ((encode service).toList.flatMap Glob.escapeChar ++ [':', '*']) := by
  rw [anyServiceGlob, join_kind_toList (by decide) (by simp)]
  simp only [join_cons_toList, join_singleton_toList, star_toList, globSegment, Glob.escape,
    String.toList_ofList, List.cons_append, List.nil_append]

theorem not_special_of_mem_join {segments : List String}
    (plain : ∀ segment ∈ segments, ∀ char ∈ segment.toList, Glob.isSpecial char = false)
    {char : Char} (present : char ∈ (join segments).toList) : Glob.isSpecial char = false := by
  induction segments with
  | nil => cases present
  | cons segment rest ih =>
    cases rest with
    | nil =>
      rw [join_singleton_toList] at present
      exact plain segment (by simp) char present
    | cons next rest =>
      rw [join_cons_toList, List.mem_append, List.mem_cons] at present
      rcases present with first | rfl | later
      · exact plain segment (by simp) char first
      · decide
      · exact ih (fun other member => plain other (List.mem_cons_of_mem _ member)) later

theorem not_special_of_mem_kind {segments : List String}
    (plain : ∀ segment ∈ segments, ∀ char ∈ segment.toList, Glob.isSpecial char = false) :
    ∀ char ∈ kind segments, Glob.isSpecial char = false := by
  intro char present
  rcases List.mem_append.mp present with joined | colon
  · exact not_special_of_mem_join plain joined
  · rw [List.mem_singleton.mp colon]
    decide

/-- Segments that stand for themselves in a glob. -/
def isPlain (segments : List String) : Bool :=
  segments.all (fun segment => segment.toList.all (fun char => !Glob.isSpecial char))

theorem not_special_of_isPlain {segments : List String} (plain : isPlain segments = true) :
    ∀ segment ∈ segments, ∀ char ∈ segment.toList, Glob.isSpecial char = false := by
  intro segment member char present
  have unmarked := List.all_eq_true.mp (List.all_eq_true.mp plain segment member) char present
  simpa using unmarked

theorem parse_head {segments : List String} (plain : isPlain segments = true) (tenant : TenantId)
    (rest : List Char) : Glob.parse (head segments tenant ++ rest) =
      (head segments tenant).map Glob.literal ++ Glob.parse rest := by
  apply Glob.parse_append
  apply not_special_of_mem_kind
  intro segment member
  rcases List.mem_append.mp member with fixed | tenant
  · exact not_special_of_isPlain plain segment fixed
  · rw [List.mem_singleton.mp tenant]
    exact fun _ => special_not_mem_tenant

theorem parse_kind {segments : List String} (plain : isPlain segments = true) (rest : List Char) :
    Glob.parse (kind segments ++ rest) =
      (kind segments).map Glob.literal ++ Glob.parse rest :=
  Glob.parse_append (not_special_of_mem_kind (not_special_of_isPlain plain)) rest

end Globs

end CacheKey

end AccessPolicy
