import AccessPolicy.Proofs.Json.Settled

/-!
Free-form values and what reading makes of them: exactly those in which no object stands for another
value are read as they are.
-/
namespace AccessPolicy.Json

/-- A free-form value as it is kept, with whole numbers only: every object has each of its keys once, in
ascending order. -/
structure FreeForm (value : Json) : Prop where
  plain : isPlain value
  kept : canonical value = value

section Canonical

theorem ordered_canonicalMembers (members : List (String × Json)) :
    ∀ {table : Table String Json}, table.Ordered → Table.Ordered (canonicalMembers table members) := by
  induction members with
  | nil => exact fun ordered => by rwa [canonicalMembers]
  | cons member rest ih =>
    intro table ordered
    rw [canonicalMembers]
    exact ih (Table.ordered_put ordered _ _)

/-- Members in order stay where they are. -/
theorem canonicalMembers_of_ordered (members : List (String × Json)) :
    ∀ front : Table String Json, Table.Ordered (front ++ members) →
      canonicalMembers front members = front ++ members.map fun entry => (entry.1, entry.2.canonical) := by
  induction members with
  | nil => exact fun front _ => by rw [canonicalMembers, List.map_nil, List.append_nil]
  | cons member rest ih =>
    obtain ⟨key, value⟩ := member
    intro front ordered
    have last := Table.put_of_below (Table.Ordered.below ordered) value.canonical
    have still : Table.Ordered ((front ++ [(key, value.canonical)]) ++ rest) := by
      simpa [Table.Ordered, Table.keys] using ordered
    rw [canonicalMembers, last, ih _ still, List.append_assoc]
    rfl

/-- A key is not lost, whatever is put after it. -/
theorem contains_canonicalMembers {key : String} (members : List (String × Json)) :
    ∀ {table : Table String Json}, table.contains key = true →
      (Table.contains (canonicalMembers table members) key) = true := by
  induction members with
  | nil => exact fun present => by rwa [canonicalMembers]
  | cons member rest ih =>
    obtain ⟨other, value⟩ := member
    intro table present
    rw [canonicalMembers]
    apply ih
    by_cases same : key = other
    · rw [same, Table.contains, Table.get?_put_self, Option.isSome_some]
    · rwa [Table.contains, Table.get?_put_of_ne _ _ same]

/-- What is kept has its members in order, and each of them is kept. -/
theorem members_of_kept {members : List (String × Json)}
    (kept : canonical (.obj members) = .obj members) :
    Table.Ordered members ∧
      (members.map fun entry => (entry.1, entry.2.canonical)) = members := by
  rw [canonical, Json.obj.injEq] at kept
  have ordered : Table.Ordered (canonicalMembers [] members) :=
    ordered_canonicalMembers members List.Pairwise.nil
  rw [kept] at ordered
  rw [canonicalMembers_of_ordered members [] ordered] at kept
  exact ⟨ordered, kept⟩

end Canonical

section Embedded

/-- What a text spells does not begin as an object that stands for another value. -/
def Resolves (read? : String → Option Json) : Prop :=
  ∀ text members, read? text = some (.obj members) → isEmbedding members = false

theorem keys_of_expandMembers? {read? : String → Option Json} {members expanded : List (String × Json)}
    (expands : expandMembers? read? members = some expanded) :
    expanded.map Prod.fst = members.map Prod.fst := by
  induction members generalizing expanded with
  | nil =>
    rw [expandMembers?, Option.some.injEq] at expands
    rw [← expands]
  | cons member rest ih =>
    obtain ⟨key, value⟩ := member
    rw [expandMembers?] at expands
    split at expands
    · next one others _ found =>
      cases expands
      rw [List.map_cons, List.map_cons, ih found]
    · cases expands

theorem isEmbedding_congr {members other : List (String × Json)}
    (same : members.map Prod.fst = other.map Prod.fst) : isEmbedding members = isEmbedding other := by
  cases members <;> cases other <;> simp_all [isEmbedding]

theorem isEmbedding_of_expand? {read? : String → Option Json} (resolves : Resolves read?) {value : Json}
    {members : List (String × Json)} (expands : value.expand? read? = some (.obj members)) :
    isEmbedding members = false := by
  cases value with
  | obj written =>
    rw [expand?] at expands
    split at expands
    · obtain ⟨text, _, found⟩ := Option.bind_eq_some_iff.mp expands
      exact resolves text members found
    · next plain =>
      obtain ⟨expanded, found, same⟩ := Option.map_eq_some_iff.mp expands
      cases same
      rw [isEmbedding_congr (keys_of_expandMembers? found)]
      exact Bool.eq_false_iff.mpr plain
  | arr items =>
    rw [expand?] at expands
    obtain ⟨_, _, differs⟩ := Option.map_eq_some_iff.mp expands
    cases differs
  | null | bool _ | int _ | real _ | str _ =>
    simp only [expand?, Option.some.injEq] at expands
    cases expands

theorem resolves_parseWithin? (depth : Nat) : Resolves (parseWithin? depth) := by
  induction depth with
  | zero => exact fun _ _ found => by cases found
  | succ depth ih =>
    intro text members found
    rw [parseWithin?] at found
    obtain ⟨value, _, expands⟩ := Option.bind_eq_some_iff.mp found
    exact isEmbedding_of_expand? ih expands

theorem resolves_parse? : Resolves parse? :=
  fun text => resolves_parseWithin? (text.length + 1) text

theorem eq_of_embeddedText? {members : List (String × Json)} {text : String}
    (only : embeddedText? members = some text) : ∃ key, members = [(key, .str text)] := by
  unfold embeddedText? at only
  split at only
  · cases only
    exact ⟨_, rfl⟩
  · cases only

theorem obj_of_canonical {value : Json} {members : List (String × Json)}
    (kept : canonical value = .obj members) :
    ∃ read, value = .obj read ∧ canonicalMembers [] read = members := by
  cases value with
  | obj read =>
    rw [canonical, Json.obj.injEq] at kept
    exact ⟨read, rfl, kept⟩
  | arr items =>
    rw [canonical] at kept
    cases kept
  | null | bool _ | int _ | real _ | str _ =>
    simp only [canonical] at kept
    cases kept

/-- An object that stands for another value is not read as itself. -/
theorem canonical_ne_of_isEmbedding {members : List (String × Json)} {value : Json}
    (embeds : isEmbedding members = true) (expands : expand? parse? (.obj members) = some value) :
    canonical value ≠ .obj members := by
  intro same
  rw [expand?, if_pos embeds] at expands
  obtain ⟨text, only, found⟩ := Option.bind_eq_some_iff.mp expands
  obtain ⟨key, rfl⟩ := eq_of_embeddedText? only
  obtain ⟨read, rfl, kept⟩ := obj_of_canonical same
  have plain := resolves_parse? text read found
  cases read with
  | nil =>
    rw [canonicalMembers] at kept
    cases kept
  | cons member rest =>
    obtain ⟨first, item⟩ := member
    have put : Table.contains [(first, item.canonical)] first = true := by
      simp [Table.contains, Table.get?]
    have present := contains_canonicalMembers rest put
    rw [canonicalMembers, Table.put] at kept
    rw [kept] at present
    have first_key : key = first := by simpa [Table.contains, Table.get?] using present
    subst first_key
    rw [isEmbedding] at embeds plain
    rw [embeds] at plain
    cases plain

mutual

theorem settled_of_expand? : ∀ {value expanded : Json}, canonical value = value →
    value.expand? parse? = some expanded → canonical expanded = value → Settled value
  | .null, _, _, _, _ | .bool _, _, _, _, _ | .int _, _, _, _, _ | .real _, _, _, _, _
  | .str _, _, _, _, _ => by simp only [Settled]
  | .arr items, expanded, kept, expands, same => by
    rw [canonical, Json.arr.injEq] at kept
    rw [expand?] at expands
    obtain ⟨each, found, rfl⟩ := Option.map_eq_some_iff.mp expands
    rw [canonical, Json.arr.injEq] at same
    rw [Settled]
    exact settledItems_of_expandItems? kept found same
  | .obj members, expanded, kept, expands, same => by
    have plain : isEmbedding members = false :=
      Bool.eq_false_iff.mpr fun embeds => canonical_ne_of_isEmbedding embeds expands same
    obtain ⟨ordered, each_kept⟩ := members_of_kept kept
    rw [expand?, plain, if_neg Bool.false_ne_true] at expands
    obtain ⟨each, found, rfl⟩ := Option.map_eq_some_iff.mp expands
    have still : Table.Ordered each := by
      unfold Table.Ordered Table.keys
      rw [keys_of_expandMembers? found]
      exact ordered
    rw [canonical, Json.obj.injEq, canonicalMembers_of_ordered each [] still, List.nil_append] at same
    rw [Settled]
    exact ⟨plain, ordered, settledMembers_of_expandMembers? each_kept found same⟩

theorem settledItems_of_expandItems? : ∀ {items expanded : List Json}, canonicalItems items = items →
    expandItems? parse? items = some expanded → canonicalItems expanded = items → SettledItems items
  | [], _, _, _, _ => by simp only [SettledItems]
  | item :: rest, expanded, kept, expands, same => by
    rw [canonicalItems, List.cons.injEq] at kept
    rw [expandItems?] at expands
    split at expands
    · next value values found others =>
      cases expands
      rw [canonicalItems, List.cons.injEq] at same
      rw [SettledItems]
      exact ⟨settled_of_expand? kept.1 found same.1,
        settledItems_of_expandItems? kept.2 others same.2⟩
    · cases expands

theorem settledMembers_of_expandMembers? : ∀ {members expanded : List (String × Json)},
    (members.map fun entry => (entry.1, entry.2.canonical)) = members →
    expandMembers? parse? members = some expanded →
    (expanded.map fun entry => (entry.1, entry.2.canonical)) = members → SettledMembers members
  | [], _, _, _, _ => by simp only [SettledMembers]
  | (key, item) :: rest, expanded, kept, expands, same => by
    rw [List.map_cons, List.cons.injEq, Prod.mk.injEq] at kept
    rw [expandMembers?] at expands
    split at expands
    · next value values found others =>
      cases expands
      rw [List.map_cons, List.cons.injEq, Prod.mk.injEq] at same
      rw [SettledMembers]
      exact ⟨settled_of_expand? kept.1.2 found same.1.2,
        settledMembers_of_expandMembers? kept.2 others same.2⟩
    · cases expands

end

/-- A value that is kept is read as it is exactly if no object in it stands for another value. -/
theorem free?_eq_some_iff {value : Json} (kept : canonical value = value) :
    free? value = some value ↔ value.Settled := by
  constructor
  · intro read
    obtain ⟨expanded, expands, same⟩ := Option.map_eq_some_iff.mp read
    exact settled_of_expand? kept expands same
  · exact free?_of_settled

end Embedded

end AccessPolicy.Json
