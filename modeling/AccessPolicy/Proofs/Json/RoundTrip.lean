import AccessPolicy.Json.Parser
import AccessPolicy.Json.Record
import AccessPolicy.Proofs.Json.Scan

/-!
What is written reads back: the tokens of a value are parsed to its tree, and the tree is read as
the value, as far as it is asked for.
-/
namespace AccessPolicy.Json

mutual

/-- The tree that a value is parsed to. -/
def tree : Json → Tree
  | .arr items => .arr (treesOf items)
  | .obj members => .obj (memberTrees members)
  | value => .leaf (some value)

def treesOf : List Json → List Tree
  | [] => []
  | item :: rest => tree item :: treesOf rest

def memberTrees : List (String × Json) → List (Option String × Tree)
  | [] => []
  | (key, value) :: rest => (some key, tree value) :: memberTrees rest

end

mutual

/-- How deep arrays and objects are nested. -/
def height : Json → Nat
  | .arr items => tallest items + 1
  | .obj members => tallestMember members + 1
  | _ => 0

def tallest : List Json → Nat
  | [] => 0
  | item :: rest => max (height item) (tallest rest)

def tallestMember : List (String × Json) → Nat
  | [] => 0
  | (_, value) :: rest => max (height value) (tallestMember rest)

end

namespace Parser

theorem run?_cons {state next : State} {token : Token} (step : step? state token = some next)
    (rest : List Token) : run? state (token :: rest) = run? next rest := by
  simp [run?, step]

theorem run?_firstItem (stack : List Frame) (value : Json) (rest : List Token) :
    run? (.firstItem stack) (tokens value ++ rest) =
      run? (.value (.items [] :: stack)) (tokens value ++ rest) := by
  match value with
  | .null | .bool _ | .int _ | .real _ | .str _ | .arr [] | .arr (_ :: _) | .obj []
  | .obj ((_, _) :: _) => simp [tokens, run?, step?]

mutual

theorem run?_tokens : ∀ (value : Json) (stack : List Frame) (rest : List Token),
    run? (.value stack) (tokens value ++ rest) = run? (supply (tree value) stack) rest
  | .null, _, _ | .bool _, _, _ | .int _, _, _ | .real _, _, _ | .str _, _, _ => by
    simp [tokens, tree, run?, step?, begin?]
  | .arr [], _, _ => by simp [tokens, tree, treesOf, run?, step?, begin?]
  | .arr (item :: items), stack, rest => by
    have opened : step? (.value stack) .openArray = some (.firstItem stack) := rfl
    rw [tokens, List.cons_append, List.append_assoc, run?_cons opened, run?_firstItem,
      run?_tokens item, supply, run?_itemTokens items]
    simp [tree, treesOf]
  | .obj [], _, _ => by simp [tokens, tree, memberTrees, run?, step?, begin?]
  | .obj ((key, value) :: members), stack, rest => by
    have opened : step? (.value stack) .openObject = some (.firstKey stack) := rfl
    have named : step? (.firstKey stack) (.str (some key)) = some (.colon [] (some key) stack) := rfl
    have parted : step? (.colon [] (some key) stack) .colon =
        some (.value (.member [] (some key) :: stack)) := rfl
    simp only [tokens, List.cons_append, List.append_assoc]
    rw [run?_cons opened, run?_cons named, run?_cons parted, run?_tokens value, supply,
      run?_memberTokens members]
    simp [tree, memberTrees]

theorem run?_itemTokens : ∀ (items : List Json) (done : List Tree) (stack : List Frame)
    (rest : List Token), run? (.afterItem done stack) (itemTokens items ++ rest) =
      run? (supply (.arr (done.reverse ++ treesOf items)) stack) rest
  | [], _, _, _ => by simp [itemTokens, treesOf, run?, step?]
  | item :: items, done, stack, rest => by
    have parted : step? (.afterItem done stack) .comma = some (.value (.items done :: stack)) := rfl
    rw [itemTokens, List.cons_append, List.append_assoc, run?_cons parted, run?_tokens item, supply,
      run?_itemTokens items]
    simp [treesOf]

theorem run?_memberTokens : ∀ (members : List (String × Json))
    (done : List (Option String × Tree)) (stack : List Frame) (rest : List Token),
    run? (.afterMember done stack) (memberTokens members ++ rest) =
      run? (supply (.obj (done.reverse ++ memberTrees members)) stack) rest
  | [], _, _, _ => by simp [memberTokens, memberTrees, run?, step?]
  | (key, value) :: members, done, stack, rest => by
    have next : step? (.afterMember done stack) .comma = some (.key done stack) := rfl
    have named : step? (.key done stack) (.str (some key)) =
        some (.colon done (some key) stack) := rfl
    have parted : step? (.colon done (some key) stack) .colon =
        some (.value (.member done (some key) :: stack)) := rfl
    simp only [memberTokens, List.cons_append, List.append_assoc]
    rw [run?_cons next, run?_cons named, run?_cons parted, run?_tokens value, supply,
      run?_memberTokens members]
    simp [memberTrees]

end

theorem ofTokens?_tokens (value : Json) : ofTokens? (tokens value) = some (tree value) := by
  have run := run?_tokens value [] []
  rw [List.append_nil] at run
  rw [ofTokens?, run]
  rfl

end Parser

/-- What is written is parsed to its tree. -/
theorem ofText?_render {value : Json} (plain : isPlain value) :
    Tree.ofText? (render value) = some (tree value) := by
  rw [Tree.ofText?, Token.scan_render plain, Option.bind_some, Parser.ofTokens?_tokens]

namespace Tree

mutual

theorem read?_tree : ∀ (value : Json) (depth : Nat), height value ≤ depth →
    (tree value).read? depth .whole = some value
  | .null, _, _ | .bool _, _, _ | .int _, _, _ | .real _, _, _ | .str _, _, _ => by
    simp [tree, read?]
  | .arr items, depth, room => by
    rw [height] at room
    have open_depth : depth ≠ 0 := by omega
    have read := readItems?_treesOf items (depth - 1) 0 (by omega)
    simp [tree, read?, open_depth, read]
  | .obj members, depth, room => by
    rw [height] at room
    have open_depth : depth ≠ 0 := by omega
    have read := readMembers?_memberTrees members (depth - 1) (by omega)
    simp [tree, read?, open_depth, read]

theorem readItems?_treesOf : ∀ (items : List Json) (depth place : Nat), tallest items ≤ depth →
    readItems? depth .whole place (treesOf items) = some items
  | [], _, _, _ => by simp [treesOf, readItems?]
  | item :: items, depth, place, room => by
    rw [tallest] at room
    have first := read?_tree item depth (by omega)
    have others := readItems?_treesOf items depth (place + 1) (by omega)
    simp [treesOf, readItems?, Shape.item, first, others]

theorem readMembers?_memberTrees : ∀ (members : List (String × Json)) (depth : Nat),
    tallestMember members ≤ depth → readMembers? depth .whole (memberTrees members) = some members
  | [], _, _ => by simp [memberTrees, readMembers?]
  | (key, value) :: members, depth, room => by
    rw [tallestMember] at room
    have first := read?_tree value depth (by omega)
    have others := readMembers?_memberTrees members depth (by omega)
    simp [memberTrees, readMembers?, Shape.member?, first, others]

end

mutual

/-- A value that is nested too deep is not read. -/
theorem read?_deep : ∀ (value : Json) (depth : Nat), depth < height value →
    (tree value).read? depth .whole = none
  | .null, _, deep | .bool _, _, deep | .int _, _, deep | .real _, _, deep | .str _, _, deep => by
    simp [height] at deep
  | .arr items, depth, deep => by
    rw [height] at deep
    by_cases closed : depth = 0
    · simp [tree, read?, closed]
    · simp [tree, read?, closed, readItems?_deep items (depth - 1) 0 (by omega)]
  | .obj members, depth, deep => by
    rw [height] at deep
    by_cases closed : depth = 0
    · simp [tree, read?, closed]
    · simp [tree, read?, closed, readMembers?_deep members (depth - 1) (by omega)]

theorem readItems?_deep : ∀ (items : List Json) (depth place : Nat), depth < tallest items →
    readItems? depth .whole place (treesOf items) = none
  | [], _, _, deep => by
    rw [tallest] at deep
    omega
  | item :: items, depth, place, deep => by
    rw [tallest] at deep
    simp only [treesOf, readItems?, Shape.item]
    by_cases first : depth < height item
    · rw [read?_deep item depth first]
    · rw [readItems?_deep items depth (place + 1) (by omega)]
      cases (tree item).read? depth .whole <;> rfl

theorem readMembers?_deep : ∀ (members : List (String × Json)) (depth : Nat),
    depth < tallestMember members → readMembers? depth .whole (memberTrees members) = none
  | [], _, deep => by
    rw [tallestMember] at deep
    omega
  | (key, value) :: members, depth, deep => by
    rw [tallestMember] at deep
    simp only [memberTrees, readMembers?, Shape.member?]
    by_cases first : depth < height value
    · rw [read?_deep value depth first]
    · rw [readMembers?_deep members depth (by omega)]
      cases (tree value).read? depth .whole <;> rfl

end

theorem readMembers?_eq_none {shape asked : Shape} {depth : Nat} {key : String} {value : Json}
    {members : List (String × Json)} (present : (key, value) ∈ members)
    (wanted : shape.member? key = some asked) (unread : (tree value).read? depth asked = none) :
    readMembers? depth shape (memberTrees members) = none := by
  induction members with
  | nil => cases present
  | cons first rest ih =>
    simp only [memberTrees, readMembers?]
    rcases List.mem_cons.mp present with rfl | later
    · simp only [wanted, unread]
    · rw [ih later]
      split
      · rfl
      · split <;> simp_all

/-- An object is not read when a member that is asked for cannot be. -/
theorem read?_eq_none {shape asked : Shape} {depth : Nat} {key : String} {value : Json}
    {members : List (String × Json)} (present : (key, value) ∈ members)
    (wanted : shape.member? key = some asked) (unread : (tree value).read? depth asked = none) :
    (tree (.obj members)).read? (depth + 1) shape = none := by
  simp [tree, read?, readMembers?_eq_none present wanted unread]

theorem readMembers?_record {fields : List (String × Shape)} {depth : Nat}
    {members : List (String × Json)} (asked : ∀ member ∈ members, ∃ shape,
      (Shape.record fields).member? member.1 = some shape ∧
        (tree member.2).read? depth shape = some member.2) :
    readMembers? depth (.record fields) (memberTrees members) = some members := by
  induction members with
  | nil => simp [memberTrees, readMembers?]
  | cons member others ih =>
    obtain ⟨key, value⟩ := member
    obtain ⟨shape, wanted, first⟩ := asked (key, value) (List.mem_cons_self ..)
    have rest := ih fun other present => asked other (List.mem_cons_of_mem _ present)
    simp [memberTrees, readMembers?, wanted, first, rest]

theorem member?_of_mem {names : List String} {name : String} (present : name ∈ names) :
    (Shape.record (names.map fun name => (name, .whole))).member? name = some .whole := by
  induction names with
  | nil => cases present
  | cons first rest ih =>
    rcases List.mem_cons.mp present with rfl | later
    · simp [Shape.member?]
    · by_cases same : first = name
      · simp [Shape.member?, same]
      · simpa [Shape.member?, same] using ih later

/-- An object is read as it is when each of its members is asked for and read as it is. -/
theorem read?_record_of_members {fields : List (String × Shape)} {depth : Nat}
    {members : List (String × Json)} (asked : ∀ member ∈ members, ∃ shape,
      (Shape.record fields).member? member.1 = some shape ∧
        (tree member.2).read? depth shape = some member.2) :
    (tree (.obj members)).read? (depth + 1) (.record fields) = some (.obj members) := by
  simp [tree, read?, readMembers?_record asked]

theorem height_le_tallestMember {members : List (String × Json)} {member : String × Json}
    (present : member ∈ members) : height member.2 ≤ tallestMember members := by
  induction members with
  | nil => cases present
  | cons first rest ih =>
    rw [tallestMember]
    rcases List.mem_cons.mp present with rfl | later
    · exact Nat.le_max_left ..
    · exact Nat.le_trans (ih later) (Nat.le_max_right ..)

theorem read?_record {fields : List (String × Shape)} {members : List (String × Json)} {depth : Nat}
    (asked : ∀ member ∈ members, (Shape.record fields).member? member.1 = some .whole)
    (room : height (.obj members) ≤ depth) :
    (tree (.obj members)).read? depth (.record fields) = some (.obj members) := by
  rw [height] at room
  obtain ⟨below, rfl⟩ : ∃ below, depth = below + 1 := ⟨depth - 1, by omega⟩
  refine read?_record_of_members fun member present => ⟨.whole, asked member present, ?_⟩
  have short := height_le_tallestMember present
  exact read?_tree member.2 _ (by omega)

end Tree

/-- Values that are written alike are the same. -/
theorem render_injective {one other : Json} (plain : isPlain one) (plain_other : isPlain other)
    (same : render one = render other) : one = other := by
  have read := ofText?_render plain
  rw [same, ofText?_render plain_other, Option.some.injEq] at read
  have deep := Tree.read?_tree one (max (height one) (height other)) (Nat.le_max_left ..)
  rw [← read, Tree.read?_tree other _ (Nat.le_max_right ..)] at deep
  exact (Option.some.inj deep).symm

section Parts

theorem isPlain_ofStrings (texts : List String) : isPlain (ofStrings texts) := by
  rw [ofStrings, isPlain]
  induction texts with
  | nil => rfl
  | cons text rest ih => simpa [arePlain, isPlain] using ih

theorem height_ofStrings (texts : List String) : height (ofStrings texts) ≤ 1 := by
  rw [ofStrings, height]
  induction texts with
  | nil => exact Nat.le_refl 1
  | cons text rest ih => simpa [tallest, height] using ih

theorem isPlain_ofWord (value : UInt64) : isPlain (ofWord value) := by
  have bound := value.toNat_lt
  rw [ofWord, isPlain, fitsWord, decide_eq_true_eq]
  exact ⟨by omega, Int.ofNat_lt.mpr bound⟩

theorem isPlain_ofOption {α : Type} {encode : α → Json} (plain : ∀ content, isPlain (encode content))
    (field : Option α) : isPlain (ofOption encode field) := by
  cases field with
  | none => rfl
  | some content => exact plain content

theorem height_ofOption {α : Type} {encode : α → Json} (flat : ∀ content, height (encode content) = 0)
    (field : Option α) : height (ofOption encode field) = 0 := by
  cases field with
  | none => rfl
  | some content => exact flat content

theorem list?_ofStrings (texts : List String) :
    list? string? (ofStrings texts) = some texts := by
  rw [ofStrings, list?, List.mapM_map]
  induction texts with
  | nil => rfl
  | cons text rest ih => simp [List.mapM_cons, string?, ih]

theorem word?_ofWord (value : UInt64) : word? (ofWord value) = some value := by
  have bound := value.toNat_lt
  simp only [ofWord, word?, Int.toNat_natCast, UInt64.ofNat_toNat]
  exact if_pos ⟨by omega, Int.ofNat_lt.mpr bound⟩

end Parts

end AccessPolicy.Json
