import LspCpp.ReflectAny
import Mathlib.Data.List.DropRight

/-! The type that an `lsp::Any` is tagged with. `SetData` guesses it from the first bytes of the text that a writer has
put out, and `GetType` finds it by a parse. -/

namespace LspCpp

/-- `lsp::Any::Type`. -/
inductive AnyType where
  | kUnKnown
  | kNullType
  | kFalseType
  | kTrueType
  | kObjectType
  | kArrayType
  | kStringType
  | kNumberType
  deriving DecidableEq

/-- An `lsp::Any` with its `jsonType`. -/
structure TaggedAny extends LspAny where
  jsonType : AnyType := .kUnKnown
  deriving DecidableEq

variable {R : Type}

/-- `GenericValue::GetType`. -/
def documentType : JsonDocument R → AnyType
  | .null => .kNullType
  | .bool false => .kFalseType
  | .bool true => .kTrueType
  | .object _ => .kObjectType
  | .array _ => .kArrayType
  | .string _ => .kStringType
  | .number _ => .kNumberType

namespace TaggedAny

/-- `Any::GuessType`: what it leaves in `jsonType`. -/
def guessType (any : TaggedAny) : AnyType :=
  if any.data ≠ [] then
    if any.data = Json.nullWord then .kNullType
    else if any.data = Json.trueWord then .kTrueType
    else if any.data = Json.falseWord then .kFalseType
    else if any.data[0]? = some 123 then .kObjectType
    else if any.data[0]? = some 91 then
      if 2 ≤ any.data.length ∧ any.data[1]? = some 123 then .kStringType else .kArrayType
    else if any.data[0]? = some 34 then .kStringType
    else .kNumberType
  else if any.jsonType ≠ .kUnKnown then any.jsonType
  else .kNullType

/-- `Any::GetType`: what it leaves in `jsonType`. -/
def getType (real : RealFormat R) (any : TaggedAny) : AnyType :=
  if any.jsonType = .kUnKnown then
    if any.data = [] then .kNullType
    else
      match Json.parse real.numbers any.data with
      | none => any.jsonType
      | some document => documentType document
  else any.jsonType

/-- `Any::SetData`, the last step of `Any::Set`: the output of a writer comes as a C string. -/
def setData (any : TaggedAny) (output : Bytes) : TaggedAny :=
  let any := { any with data := cStr output }
  { any with jsonType := any.guessType }

/-- The text that `Any::GetForMapHelper` reads: that of a string without the quotation marks around it. -/
def forMapData (real : RealFormat R) (any : TaggedAny) : Bytes :=
  if any.getType real = .kStringType then (any.data.rdropWhile (· == 34)).dropWhile (· == 34) else any.data

end TaggedAny

def isObject : JsonDocument R → Bool
  | .object _ => true
  | _ => false

/-- An array whose first element is an object. -/
def isObjectArray : JsonDocument R → Bool
  | .array (first :: _) => isObject first
  | _ => false

variable (real : RealFormat R)

theorem head_number (value : JsonNumber R) :
    ∃ c rest, Json.text real.numbers (.number value) = c :: rest ∧ (c = 45 ∨ 48 ≤ c ∧ c ≤ 57) := by
  obtain ⟨c, hhead, hc⟩ := real.numbers.head?_lexeme value
  obtain ⟨rest, hcons⟩ := List.head?_eq_some_iff.mp hhead
  exact ⟨c, rest, hcons, hc⟩

/-- A text begins with a brace exactly where it is that of an object. -/
theorem head_text (m : JsonDocument R) :
    ∃ c rest, Json.text real.numbers m = c :: rest ∧ (c = 123 ↔ isObject m = true) := by
  cases m with
  | null => exact ⟨110, _, rfl, by simp [isObject]⟩
  | bool value =>
      cases value with
      | false => exact ⟨102, _, rfl, by simp [isObject]⟩
      | true => exact ⟨116, _, rfl, by simp [isObject]⟩
  | string value => exact ⟨34, _, rfl, by simp [isObject]⟩
  | array elements => exact ⟨91, _, rfl, by simp [isObject]⟩
  | object members => exact ⟨123, _, rfl, by simp [isObject]⟩
  | number value =>
      obtain ⟨c, rest, hcons, hc⟩ := head_number real value
      refine ⟨c, rest, hcons, iff_of_false ?_ (by simp [isObject])⟩
      rintro rfl
      exact absurd hc (by decide)

theorem text_array_cons (first : JsonDocument R) (rest : List (JsonDocument R)) :
    ∃ after, Json.text real.numbers (.array (first :: rest)) = 91 :: (Json.text real.numbers first ++ after) := by
  rw [Json.text, Json.arrayText, Json.texts]
  cases rest with
  | nil => exact ⟨_, rfl⟩
  | cons next rest => exact ⟨_, rfl⟩

/-- What follows the bracket of an array. -/
theorem second_text_array (elements : List (JsonDocument R)) :
    ∃ c rest, Json.text real.numbers (.array elements) = 91 :: c :: rest ∧
      (c = 123 ↔ isObjectArray (.array elements : JsonDocument R) = true) := by
  cases elements with
  | nil => exact ⟨93, [], rfl, by simp [isObjectArray]⟩
  | cons first rest =>
      obtain ⟨after, htext⟩ := text_array_cons real first rest
      obtain ⟨c, others, hfirst, hc⟩ := head_text real first
      exact ⟨c, others ++ after, by rw [htext, hfirst]; rfl, hc⟩

theorem closeTexts_concat (close : UInt8) (texts : List Bytes) :
    ∃ front, Json.closeTexts close texts = front ++ [close] := by
  fun_induction Json.closeTexts close texts with
  | case1 => exact ⟨[], rfl⟩
  | case2 text => exact ⟨text, rfl⟩
  | case3 text next rest ih =>
      obtain ⟨front, hfront⟩ := ih
      exact ⟨text ++ 44 :: front, by rw [hfront, List.append_assoc, List.cons_append]⟩

namespace TaggedAny

/-- No text but a word begins with the first byte of one: what is guessed from the first two bytes. -/
theorem guessType_cons {any : TaggedAny} {c : UInt8} {rest : Bytes} (hdata : any.data = c :: rest)
    (hnull : c ≠ 110) (htrue : c ≠ 116) (hfalse : c ≠ 102) :
    any.guessType =
      if c = 123 then .kObjectType
      else if c = 91 then if rest.head? = some 123 then .kStringType else .kArrayType
      else if c = 34 then .kStringType
      else .kNumberType := by
  have hword : ∀ b word, c ≠ b → any.data ≠ b :: word := fun b word hb h =>
    hb (List.cons.inj (hdata.symm.trans h)).1
  have hsecond : (2 ≤ any.data.length ∧ any.data[1]? = some 123) ↔ rest.head? = some 123 := by
    rw [hdata]
    cases rest <;> simp
  have hne : any.data ≠ [] := by
    rw [hdata]
    exact List.cons_ne_nil c rest
  have hnull' : any.data ≠ Json.nullWord := hword _ _ hnull
  have htrue' : any.data ≠ Json.trueWord := hword _ _ htrue
  have hfalse' : any.data ≠ Json.falseWord := hword _ _ hfalse
  rw [guessType, if_pos hne, if_neg hnull', if_neg htrue', if_neg hfalse']
  simp only [hsecond]
  simp only [hdata, List.getElem?_cons_zero, Option.some.injEq]

/-- The guess for the text of a value. -/
theorem guessType_text {any : TaggedAny} {m : JsonDocument R} (hdata : any.data = Json.text real.numbers m) :
    any.guessType = if isObjectArray m = true then .kStringType else documentType m := by
  cases m with
  | null => simp [guessType, hdata, Json.text, isObjectArray, documentType, Json.nullWord]
  | bool value =>
      cases value <;>
        simp [guessType, hdata, Json.text, isObjectArray, documentType, Json.nullWord, Json.trueWord, Json.falseWord]
  | string value => exact guessType_cons hdata (by decide) (by decide) (by decide)
  | object members => exact guessType_cons hdata (by decide) (by decide) (by decide)
  | number value =>
      obtain ⟨c, rest, hcons, hc⟩ := head_number real value
      have hne : ∀ b, ¬(b = 45 ∨ 48 ≤ b ∧ b ≤ 57) → c ≠ b := fun b hb h => hb (h ▸ hc)
      rw [guessType_cons (hdata.trans hcons) (hne _ (by decide)) (hne _ (by decide)) (hne _ (by decide)),
        if_neg (hne _ (by decide)), if_neg (hne _ (by decide)), if_neg (hne _ (by decide))]
      rfl
  | array elements =>
      obtain ⟨c, rest, htext, hc⟩ := second_text_array real elements
      rw [guessType_cons (hdata.trans htext) (by decide) (by decide) (by decide), if_neg (by decide), if_pos rfl]
      simp only [List.head?_cons, Option.some.injEq, hc]
      rfl

theorem documentType_reread (m : JsonDocument R) : documentType (Json.reread real.numbers m) = documentType m := by
  cases m with
  | bool value => cases value <;> rfl
  | _ => rfl

/-- The type that a parse of the text finds. -/
theorem getType_text {any : TaggedAny} {m : JsonDocument R} (hdata : any.data = Json.text real.numbers m) :
    getType real { any with jsonType := .kUnKnown } = documentType m := by
  obtain ⟨c, rest, hcons, -⟩ := head_text real m
  have hne : any.data ≠ [] := by
    rw [hdata, hcons]
    exact List.cons_ne_nil c rest
  rw [getType, if_pos rfl]
  rw [hdata] at hne
  simp only [hdata, if_neg hne, parse_text]
  exact documentType_reread real m

/-- What `Any::Set` leaves after a value has been written. -/
theorem setData_text (any : TaggedAny) (m : JsonDocument R) :
    (any.setData (Json.text real.numbers m)).data = Json.text real.numbers m ∧
      (any.setData (Json.text real.numbers m)).jsonType =
        if isObjectArray m = true then .kStringType else documentType m := by
  have hdata : ({ any with data := cStr (Json.text real.numbers m) } : TaggedAny).data = Json.text real.numbers m :=
    cStr_of_printable (printable_text real m)
  exact ⟨hdata, guessType_text real hdata⟩

/-- The guess for the text of a value is the type that a parse of it finds, unless the text is an array that begins with
an object. -/
theorem jsonType_setData_iff (any : TaggedAny) (m : JsonDocument R) :
    (any.setData (Json.text real.numbers m)).jsonType =
        getType real { any.setData (Json.text real.numbers m) with jsonType := .kUnKnown } ↔
      isObjectArray m = false := by
  obtain ⟨hdata, hguess⟩ := setData_text real any m
  rw [getType_text real hdata, hguess]
  cases m with
  | array elements =>
      cases hobject : isObjectArray (.array elements : JsonDocument R) <;> simp [documentType]
  | _ => simp [isObjectArray]

/-- `[{}]` is tagged as a string, and a parse of it finds an array. -/
theorem jsonType_setData_objectArray :
    Json.text noReals.numbers (.array [.object []]) = bytesOf "[{}]" ∧
      (setData {} (bytesOf "[{}]")).jsonType = .kStringType ∧
      getType noReals { setData {} (bytesOf "[{}]") with jsonType := .kUnKnown } = .kArrayType := by
  refine ⟨rfl, rfl, rfl⟩

/-- Nothing is taken off the text of an array, whatever it is tagged as. -/
theorem forMapData_array {any : TaggedAny} {elements : List (JsonDocument R)}
    (hdata : any.data = Json.text real.numbers (.array elements)) : any.forMapData real = any.data := by
  obtain ⟨front, hfront⟩ := closeTexts_concat 93 (Json.texts real.numbers elements)
  have htext : any.data = 91 :: front ++ [93] := hdata.trans (congrArg (List.cons 91) hfront)
  rw [forMapData]
  split_ifs
  · rw [htext, List.rdropWhile_concat_neg _ _ _ (by decide), List.cons_append]
    exact List.dropWhile_cons_of_neg (by decide)
  · rfl

end TaggedAny

end LspCpp
