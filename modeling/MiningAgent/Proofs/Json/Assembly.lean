import MiningAgent.Json.Reader
import MiningAgent.Proofs.Json.Scanning

/-!
# Assembling values

Every value has a row of tokens, and from this row the reader puts together the same
value: where a value is due, its tokens do what the complete value would do there.  In the
row no two words or numbers are neighbours, so each of its texts is read as the value.
-/

namespace MiningAgent.Json

/-- Induction on values, with what is known of all items or members of a container. -/
theorem induct {motive : Json → Prop} (null : motive .null)
    (bool : ∀ value, motive (.bool value)) (number : ∀ numeral, motive (.number numeral))
    (text : ∀ parts, motive (.text parts))
    (array : ∀ items, (∀ item ∈ items, motive item) → motive (.array items))
    (object : ∀ members, (∀ member ∈ members, motive member.2) → motive (.object members))
    (value : Json) : motive value := by
  refine @Json.rec motive (fun items => ∀ item ∈ items, motive item)
    (fun members => ∀ member ∈ members, motive member.2) (fun member => motive member.2)
    null bool number text array object ?_ ?_ ?_ ?_ ?_ value
  case refine_1 => simp
  case refine_2 => exact fun first rest head tail => by simpa using ⟨head, tail⟩
  case refine_3 => simp
  case refine_4 => exact fun first rest head tail => List.forall_mem_cons.mpr ⟨head, tail⟩
  case refine_5 => exact fun _ _ known => known

/-- The tokens of a row of items, with a comma between any two. -/
def row (items : List (List Token)) : List Token :=
  (List.intersperse [.comma] items).flatten

mutual

/-- The tokens that spell a value. -/
def tokens : Json → List Token
  | .null => [.null]
  | .bool value => [.bool value]
  | .number numeral => [.number numeral]
  | .text parts => [.text parts]
  | .array items => .openBracket :: (row (itemTokens items) ++ [.closeBracket])
  | .object members => .openBrace :: (row (memberTokens members) ++ [.closeBrace])

def itemTokens : List Json → List (List Token)
  | [] => []
  | item :: rest => item.tokens :: itemTokens rest

def memberTokens : List (List Part × Json) → List (List Token)
  | [] => []
  | (name, value) :: rest => (.text name :: .colon :: value.tokens) :: memberTokens rest

end

theorem itemTokens_eq_map (items : List Json) : itemTokens items = items.map tokens := by
  induction items with
  | nil => rfl
  | cons item rest hypothesis => simp [itemTokens, hypothesis]

theorem memberTokens_eq_map (members : List (List Part × Json)) :
    memberTokens members = members.map fun member =>
      .text member.1 :: .colon :: member.2.tokens := by
  induction members with
  | nil => rfl
  | cons member rest hypothesis => simp [memberTokens, hypothesis]

namespace Parted

theorem single (token : Token) : Parted [token] := List.isChain_singleton token

theorem row {items : List (List Token)} (each : ∀ item ∈ items, Parted item) :
    Parted (row items) := by
  induction items with
  | nil => exact List.isChain_nil
  | cons first rest hypothesis =>
      have head := each first (by simp)
      have tail := hypothesis fun item here => each item (by simp [here])
      cases rest with
      | nil => simpa [Json.row] using head
      | cons second others => simpa [Json.row] using head.join (rfl : Token.comma.isMark) tail

theorem enclosed {start stop : Token} {inside : List Token} (starts : start.isMark)
    (stops : stop.isMark) (parted : Parted inside) :
    Parted (start :: (inside ++ [stop])) :=
  join List.isChain_nil starts (parted.join stops List.isChain_nil)

end Parted

theorem parted_tokens (value : Json) : Parted value.tokens := by
  induction value using induct with
  | null => exact .single _
  | bool value => exact .single _
  | number numeral => exact .single _
  | text parts => exact .single _
  | array items hypothesis =>
      refine .enclosed rfl rfl (.row ?_)
      rw [itemTokens_eq_map]
      exact List.forall_mem_map.mpr hypothesis
  | object members hypothesis =>
      refine .enclosed rfl rfl (.row ?_)
      rw [memberTokens_eq_map]
      refine List.forall_mem_map.mpr fun member here => ?_
      exact (Parted.single _).join (rfl : Token.colon.isMark) (hypothesis member here)

namespace Assembly

/-- Where a value is due, its tokens put it in its place. -/
def Takes (value : Json) : Prop :=
  ∀ stack due, due = .value ∨ due = .firstItem →
    value.tokens.foldlM step ⟨stack, due⟩ = place stack value

/-- The items of an array are taken one by one. -/
theorem takes_items {items : List Json} (each : ∀ item ∈ items, Takes item)
    (present : items ≠ []) (earlier : List Json) (stack : List Frame) (due : Due)
    (begins : due = .value ∨ due = .firstItem) :
    (row (itemTokens items)).foldlM step ⟨.array earlier :: stack, due⟩ =
      some ⟨.array (items.reverse ++ earlier) :: stack, .separator⟩ := by
  induction items generalizing earlier due with
  | nil => exact absurd rfl present
  | cons first rest hypothesis =>
      have taken := each first (by simp) (.array earlier :: stack) due begins
      cases rest with
      | nil => simpa [row, itemTokens, place] using taken
      | cons second others =>
          have left := hypothesis (fun item member => each item (by simp [member])) (by simp)
            (first :: earlier) .value (.inl rfl)
          simp only [row, itemTokens] at left
          have next : step ⟨.array (first :: earlier) :: stack, .separator⟩ .comma =
              some ⟨.array (first :: earlier) :: stack, .value⟩ := rfl
          simp [row, itemTokens, List.foldlM_append, taken, place, next, left]

/-- So are the members of an object. -/
theorem takes_members {members : List (List Part × Json)}
    (each : ∀ member ∈ members, Takes member.2) (present : members ≠ [])
    (earlier : List (List Part × Json)) (stack : List Frame) (due : Due)
    (begins : due = .name ∨ due = .firstName) :
    (row (memberTokens members)).foldlM step ⟨.object earlier :: stack, due⟩ =
      some ⟨.object (members.reverse ++ earlier) :: stack, .separator⟩ := by
  induction members generalizing earlier due with
  | nil => exact absurd rfl present
  | cons first rest hypothesis =>
      obtain ⟨name, value⟩ := first
      have named : step ⟨.object earlier :: stack, due⟩ (.text name) =
          some ⟨.member name :: .object earlier :: stack, .colon⟩ := by
        rcases begins with rfl | rfl <;> simp [step, beginMember]
      have parted : step ⟨.member name :: .object earlier :: stack, .colon⟩ .colon =
          some ⟨.member name :: .object earlier :: stack, .value⟩ := rfl
      have taken := each (name, value) (by simp) (.member name :: .object earlier :: stack)
        .value (.inl rfl)
      cases rest with
      | nil =>
          simp only [place] at taken
          simp [row, memberTokens, named, parted, taken]
      | cons second others =>
          have left := hypothesis (fun member here => each member (by simp [here])) (by simp)
            ((name, value) :: earlier) .name (.inl rfl)
          simp only [place] at taken
          simp only [row, memberTokens] at left
          have next : step ⟨.object ((name, value) :: earlier) :: stack, .separator⟩ .comma =
              some ⟨.object ((name, value) :: earlier) :: stack, .name⟩ := rfl
          simp [row, memberTokens, List.foldlM_append, named, parted, taken, next, left]

theorem close_array {due : Due} (ends : due = .firstItem ∨ due = .separator)
    (items : List Json) (stack : List Frame) :
    step ⟨.array items :: stack, due⟩ .closeBracket = place stack (.array items.reverse) := by
  rcases ends with rfl | rfl <;> rfl

theorem close_object {due : Due} (ends : due = .firstName ∨ due = .separator)
    (members : List (List Part × Json)) (stack : List Frame) :
    step ⟨.object members :: stack, due⟩ .closeBrace = place stack (.object members.reverse) := by
  rcases ends with rfl | rfl <;> rfl

theorem takes (value : Json) : Takes value := by
  induction value using induct with
  | null => rintro stack due (rfl | rfl) <;> simp [tokens, step, beginValue]
  | bool value => rintro stack due (rfl | rfl) <;> simp [tokens, step, beginValue]
  | number numeral => rintro stack due (rfl | rfl) <;> simp [tokens, step, beginValue]
  | text parts => rintro stack due (rfl | rfl) <;> simp [tokens, step, beginValue]
  | array items hypothesis =>
      intro stack due begins
      have opened : step ⟨stack, due⟩ .openBracket = some ⟨.array [] :: stack, .firstItem⟩ := by
        rcases begins with rfl | rfl <;> rfl
      by_cases present : items = []
      · subst present
        have closed := close_array (.inl rfl) [] stack
        simp [tokens, row, itemTokens, opened, closed]
      · have inside := takes_items hypothesis present [] stack .firstItem (.inr rfl)
        have closed := close_array (.inr rfl) items.reverse stack
        rw [List.append_nil] at inside
        simp [tokens, List.foldlM_append, opened, inside, closed]
  | object members hypothesis =>
      intro stack due begins
      have opened : step ⟨stack, due⟩ .openBrace = some ⟨.object [] :: stack, .firstName⟩ := by
        rcases begins with rfl | rfl <;> rfl
      by_cases present : members = []
      · subst present
        have closed := close_object (.inl rfl) [] stack
        simp [tokens, row, memberTokens, opened, closed]
      · have inside := takes_members hypothesis present [] stack .firstName (.inr rfl)
        have closed := close_object (.inr rfl) members.reverse stack
        rw [List.append_nil] at inside
        simp [tokens, List.foldlM_append, opened, inside, closed]

end Assembly

/-- A value is put together again from its tokens. -/
theorem ofTokens?_tokens (value : Json) : ofTokens? value.tokens = some value := by
  have taken := Assembly.takes value [] .value (.inl rfl)
  simp [ofTokens?, Assembly.start, taken, Assembly.place, Assembly.result?]

/-- Each text of a value is read as this value. -/
theorem Spells.read {value : Json} {text : List Char} (spells : Spells value.tokens text) :
    read? text = some value := by
  simp [read?, spells.tokens?_eq (parted_tokens value), ofTokens?_tokens]

end MiningAgent.Json
