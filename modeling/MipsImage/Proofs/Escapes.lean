import MipsImage.Proofs.StringLiterals

/-!
# Escapes

The body of a string is a sequence of items: characters that stand for themselves, control
characters and quotes by their names, and bytes by two hexadecimal digits. No item is the beginning
of another one, so a body is divided into items in one way at most, and it stands for the bytes of
its items. A body that cannot be divided is refused for the first backslash that begins no item. A
lone surrogate is an item without bytes: where it is converted, the body is refused without a fault.
-/
set_option autoImplicit false

namespace MipsImage.StringBody

/-! ## Items -/

/-- The characters that name a byte behind a backslash. -/
def controls : List (CodePoint × UInt8) :=
  [(.char 'n', 10), (.char 't', 9), (.char 'r', 13), (.char '0', 0), (.char '\\', 92),
   (.char '"', 34), (.char '\'', 39), (.char 'a', 7), (.char 'b', 8), (.char 'f', 12),
   (.char 'v', 11)]

inductive Item where
  | plain (c : CodePoint) (other : c ≠ .char '\\')
  | control (name : CodePoint) (byte : UInt8) (known : (name, byte) ∈ controls)
  | hexadecimal (high low : CodePoint) (upper lower : Nat)
    (first : Text.hexDigit? high = some upper) (second : Text.hexDigit? low = some lower)

namespace Item

def text : Item → Text
  | plain c _ => [c]
  | control name _ _ => [.char '\\', name]
  | hexadecimal high low _ _ _ _ => [.char '\\', .char 'x', high, low]

/-- A character stands for its UTF-8 bytes, a lone surrogate for none, everything else for one
byte. -/
def value : Item → Bytes
  | plain (.char c) _ => String.utf8EncodeChar c
  | plain (.surrogate _) _ => []
  | control _ byte _ => [byte]
  | hexadecimal _ _ upper lower _ _ => [UInt8.ofNat (16 * upper + lower)]

/-- A lone surrogate is the one item that cannot be converted. -/
def isEncodable : Item → Bool
  | plain (.surrogate _) _ => false
  | _ => true

def isPlain : Item → Bool
  | plain _ _ => true
  | _ => false

/-- The characters between the last escape and the end of an item, if there were so many before. -/
def column (before : Nat) (item : Item) : Nat := if item.isPlain then before + 1 else 0

end Item

theorem control?_eq_some_iff {c : CodePoint} {b : UInt8} :
    control? c = some b ↔ (c, b) ∈ controls := by
  have table : ∀ entry ∈ controls, control? entry.1 = some entry.2 := by decide
  constructor
  · intro h
    unfold control? at h
    split at h <;> cases h <;> decide
  · exact table (c, b)

theorem hexByte?_eq_some_iff {high low : CodePoint} {b : UInt8} :
    hexByte? high low = some b ↔ ∃ upper lower, Text.hexDigit? high = some upper ∧
      Text.hexDigit? low = some lower ∧ b = UInt8.ofNat (16 * upper + lower) := by
  simp only [hexByte?, bind, Option.bind_eq_some_iff, pure, Option.some.injEq]
  constructor
  · rintro ⟨upper, first, lower, second, rfl⟩
    exact ⟨upper, lower, first, second, rfl⟩
  · rintro ⟨upper, lower, first, second, rfl⟩
    exact ⟨upper, first, lower, second, rfl⟩

/-! ### One way to divide -/

/-- The mark of hexadecimal digits names no byte itself. -/
theorem mark_not_mem_controls (b : UInt8) : (.char 'x', b) ∉ controls := by
  rw [← control?_eq_some_iff]
  intro found
  cases found

theorem Item.eq_of_text_append_eq {item other : Item} {rest more : Text}
    (h : item.text ++ rest = other.text ++ more) : item = other ∧ rest = more := by
  cases item with
  | plain c own =>
    cases other with
    | plain d _ =>
      cases h
      exact ⟨rfl, rfl⟩
    | control | hexadecimal =>
      cases h
      exact absurd rfl own
  | control name byte known =>
    cases other with
    | plain d own =>
      cases h
      exact absurd rfl own
    | control name' byte' known' =>
      cases h
      have same := control?_eq_some_iff.2 known
      rw [control?_eq_some_iff.2 known'] at same
      cases same
      exact ⟨rfl, rfl⟩
    | hexadecimal =>
      cases h
      exact absurd known (mark_not_mem_controls byte)
  | hexadecimal high low upper lower first second =>
    cases other with
    | plain d own =>
      cases h
      exact absurd rfl own
    | control name byte known =>
      cases h
      exact absurd known (mark_not_mem_controls byte)
    | hexadecimal high' low' upper' lower' first' second' =>
      cases h
      rw [first] at first'
      rw [second] at second'
      cases first'
      cases second'
      exact ⟨rfl, rfl⟩

theorem Item.text_ne_nil (item : Item) : item.text ≠ [] := by
  cases item <;> exact List.cons_ne_nil _ _

/-- A body is divided into items in one way at most. -/
theorem flatMap_text_injective {items others : List Item}
    (h : items.flatMap Item.text = others.flatMap Item.text) : items = others := by
  induction items generalizing others with
  | nil =>
    cases others with
    | nil => rfl
    | cons other more =>
      rw [List.flatMap_nil, List.flatMap_cons, eq_comm, List.append_eq_nil_iff] at h
      exact absurd h.1 other.text_ne_nil
  | cons item rest ih =>
    cases others with
    | nil =>
      rw [List.flatMap_nil, List.flatMap_cons, List.append_eq_nil_iff] at h
      exact absurd h.1 item.text_ne_nil
    | cons other more =>
      rw [List.flatMap_cons, List.flatMap_cons] at h
      obtain ⟨rfl, later⟩ := Item.eq_of_text_append_eq h
      rw [ih later]

/-! ## Reading items -/

theorem bytesFrom_item_append {item : Item} (encodable : item.isEncodable = true) (before : Nat)
    (rest : Text) : bytesFrom before (item.text ++ rest) =
      (item.value ++ ·) <$> bytesFrom (item.column before) rest := by
  cases item with
  | plain c other =>
    cases c with
    | char c => exact bytesFrom_char (fun h => other (congrArg CodePoint.char h)) before rest
    | surrogate place => cases encodable
  | control name byte known =>
    have named := control?_eq_some_iff.2 known
    change bytesFrom before (.char '\\' :: name :: rest) = _
    rw [bytesFrom, named]
    · rfl
    · rintro high low more rfl
      cases named
  | hexadecimal high low upper lower first second =>
    have byte := hexByte?_eq_some_iff.2 ⟨upper, lower, first, second, rfl⟩
    change bytesFrom before (.char '\\' :: .char 'x' :: high :: low :: rest) = _
    rw [bytesFrom, byte]
    rfl

theorem bytesFrom_items_append {items : List Item}
    (encodable : ∀ item ∈ items, item.isEncodable = true) (before : Nat) (rest : Text) :
    bytesFrom before (items.flatMap Item.text ++ rest) =
      (items.flatMap Item.value ++ ·) <$> bytesFrom (items.foldl Item.column before) rest := by
  induction items generalizing before with
  | nil => exact (id_map _).symm
  | cons item more ih =>
    rw [List.forall_mem_cons] at encodable
    rw [List.flatMap_cons, List.append_assoc, bytesFrom_item_append encodable.1,
      ih encodable.2, List.flatMap_cons, List.foldl_cons]
    cases bytesFrom (more.foldl Item.column (item.column before)) rest with
    | error reason => rfl
    | ok bs => exact congrArg Except.ok (List.append_assoc ..).symm

/-- What is counted since the last escape are the plain items at the end. -/
theorem foldl_column (items : List Item) :
    items.foldl Item.column 0 = (items.rtakeWhile Item.isPlain).length := by
  induction items using List.reverseRecOn with
  | nil => rfl
  | append_singleton front item ih =>
    rw [List.foldl_append, ih, List.foldl_cons, List.foldl_nil, Item.column,
      List.rtakeWhile_concat]
    split
    · rw [List.length_append, List.length_singleton]
    · rfl

/-! ## Defects -/

/-- A text at whose start no item can be read, and why. -/
inductive Defect : Text → EscapeFault → Prop
  | unrecognised {c : CodePoint} {more : Text}
    (none : ∀ item : Item, ¬item.text <+: .char '\\' :: c :: more) :
    Defect (.char '\\' :: c :: more) (.unrecognised [c])
  | dangling : Defect [.char '\\'] .dangling

/-- The items that are converted before a defect is seen: a backslash that is left over at the end
is seen before the plain text in front of it is converted. -/
def converted (items : List Item) : EscapeFault → List Item
  | .unrecognised _ => items
  | .dangling => items.rdropWhile Item.isPlain

theorem Defect.bytesFrom_eq {rest : Text} {reason : EscapeFault} (defect : Defect rest reason)
    (column : Nat) : bytesFrom column rest = .error (.fault reason) := by
  cases defect with
  | dangling => rfl
  | @unrecognised c more none =>
    have unnamed : control? c = Option.none := by
      refine Option.eq_none_iff_forall_ne_some.2 fun b named => ?_
      exact none (.control c b (control?_eq_some_iff.1 named)) ⟨more, rfl⟩
    -- the mark of hexadecimal digits is read as such only if two characters follow it
    by_cases marked : ∃ high low rest, c = .char 'x' ∧ more = high :: low :: rest
    · obtain ⟨high, low, rest, rfl, rfl⟩ := marked
      have byte : hexByte? high low = Option.none := by
        refine Option.eq_none_iff_forall_ne_some.2 fun b read => ?_
        obtain ⟨upper, lower, first, second, -⟩ := hexByte?_eq_some_iff.1 read
        exact none (.hexadecimal high low upper lower first second) ⟨rest, rfl⟩
      rw [bytesFrom, byte]
    · rw [bytesFrom, unnamed]
      intro high low rest mark digits
      exact marked ⟨high, low, rest, mark, digits⟩

/-! ### A backslash that is left over -/

theorem isDangling_append_backslash {plain : Text} (free : .char '\\' ∉ plain) :
    isDangling (plain ++ [.char '\\']) = true := by
  induction plain with
  | nil => rfl
  | cons c rest ih =>
    rw [List.mem_cons, not_or] at free
    unfold isDangling
    rw [List.cons_append, List.dropWhile_cons_of_pos (by simpa using Ne.symm free.1)]
    exact ih free.2

theorem eq_of_isDangling {t : Text} (h : isDangling t = true) :
    ∃ plain, t = plain ++ [.char '\\'] ∧ .char '\\' ∉ plain := by
  have rest : t.dropWhile (· ≠ .char '\\') = [.char '\\'] := of_decide_eq_true h
  have whole := @List.takeWhile_append_dropWhile _ (fun c => decide (c ≠ CodePoint.char '\\')) t
  rw [rest] at whole
  refine ⟨_, whole.symm, fun member => ?_⟩
  simpa using List.mem_takeWhile_imp member

/-- Text without a backslash is a sequence of plain items. -/
theorem exists_plain {t : Text} (free : .char '\\' ∉ t) :
    ∃ items : List Item, t = items.flatMap Item.text ∧ ∀ item ∈ items, item.isPlain = true := by
  induction t with
  | nil => exact ⟨[], rfl, nofun⟩
  | cons c rest ih =>
    rw [List.mem_cons, not_or] at free
    obtain ⟨items, rfl, plain⟩ := ih free.2
    exact ⟨.plain c (Ne.symm free.1) :: items, rfl, List.forall_mem_cons.2 ⟨rfl, plain⟩⟩

theorem backslash_not_mem {items : List Item} (plain : ∀ item ∈ items, item.isPlain = true) :
    .char '\\' ∉ items.flatMap Item.text := by
  intro member
  obtain ⟨item, hitem, own⟩ := List.mem_flatMap.1 member
  cases item with
  | plain c other => exact other (List.mem_singleton.1 own).symm
  | control | hexadecimal => cases plain _ hitem

/-- Plain text in front of a backslash that is left over is not looked at. -/
theorem bytesFrom_dangling {plain : Text} (free : .char '\\' ∉ plain) (column : Nat) :
    bytesFrom column (plain ++ [.char '\\']) = .error (.fault .dangling) := by
  induction plain generalizing column with
  | nil => rfl
  | cons c rest ih =>
    rw [List.mem_cons, not_or] at free
    cases c with
    | char c =>
      rw [List.cons_append, bytesFrom_char (fun h => free.1 (congrArg CodePoint.char h).symm),
        ih free.2]
      rfl
    | surrogate place =>
      rw [List.cons_append, bytesFrom, if_pos (isDangling_append_backslash free.2)]

/-- A body begins with an item unless it is empty or has a defect right there. -/
theorem begins_or_defect (body : Text) :
    body = [] ∨ (∃ (item : Item) (rest : Text), body = item.text ++ rest) ∨
      ∃ reason, Defect body reason := by
  match body with
  | [] => exact .inl rfl
  | [c] =>
    by_cases h : c = '\\'
    · subst h
      exact .inr (.inr ⟨_, .dangling⟩)
    · exact .inr (.inl ⟨.plain c h, [], rfl⟩)
  | c :: d :: more =>
    by_cases h : c = '\\'
    · subst h
      by_cases known : ∃ item : Item, item.text <+: '\\' :: d :: more
      · obtain ⟨item, rest, own⟩ := known
        exact .inr (.inl ⟨item, rest, own.symm⟩)
      · exact .inr (.inr ⟨_, .unrecognised (not_exists.1 known)⟩)
    · exact .inr (.inl ⟨.plain c h, d :: more, rfl⟩)

/-- A body is a sequence of items, or items are followed by a defect. -/
theorem divided_or_defect (body : Text) :
    (∃ items : List Item, body = items.flatMap Item.text) ∨
      ∃ (items : List Item) (rest : Text) (reason : EscapeFault),
        body = items.flatMap Item.text ++ rest ∧ Defect rest reason := by
  induction h : body.length using Nat.strongRecOn generalizing body with
  | ind n ih =>
    rcases begins_or_defect body with rfl | ⟨item, rest, rfl⟩ | ⟨reason, defect⟩
    · exact .inl ⟨[], rfl⟩
    · have positive := List.length_pos_of_ne_nil item.text_ne_nil
      rw [List.length_append] at h
      rcases ih rest.length (by omega) rest rfl with ⟨items, rfl⟩ |
        ⟨items, last, reason, rfl, defect⟩
      · exact .inl ⟨item :: items, rfl⟩
      · exact .inr ⟨item :: items, last, reason, (List.append_assoc ..).symm, defect⟩
    · exact .inr ⟨[], body, reason, rfl, defect⟩

/-! ## Decoding -/

theorem decode_of_bytes {body : Text} {bs : Bytes} (h : bytes body = .ok bs) :
    decode body = .ok bs := by
  rw [decode, h]
  rfl

theorem decode_of_fault {body : Text} {reason : EscapeFault}
    (h : bytes body = .error (.fault reason)) :
    decode body = .error (.fault (.invalidEscape body reason)) := by
  rw [decode, h]
  rfl

theorem decode_items {items : List Item} (encodable : ∀ item ∈ items, item.isEncodable = true) :
    decode (items.flatMap Item.text) = .ok (items.flatMap Item.value) := by
  have whole := bytesFrom_items_append encodable 0 []
  rw [List.append_nil] at whole
  refine decode_of_bytes (whole.trans ?_)
  exact congrArg Except.ok (List.append_nil _)

theorem decode_of_defect {items : List Item} {rest : Text} {reason : EscapeFault}
    (defect : Defect rest reason)
    (encodable : ∀ item ∈ converted items reason, item.isEncodable = true) :
    decode (items.flatMap Item.text ++ rest) =
      .error (.fault (.invalidEscape (items.flatMap Item.text ++ rest) reason)) := by
  refine decode_of_fault ?_
  cases defect with
  | unrecognised none =>
    rw [bytes, @bytesFrom_items_append items encodable, (Defect.unrecognised none).bytesFrom_eq]
    rfl
  | dangling =>
    -- the plain items at the end are skipped together with the backslash
    have free := @backslash_not_mem (items.rtakeWhile Item.isPlain)
      fun item member => List.mem_rtakeWhile_imp member
    rw [← @List.rdropWhile_append_rtakeWhile _ Item.isPlain items, List.flatMap_append,
      List.append_assoc, bytes, @bytesFrom_items_append (items.rdropWhile Item.isPlain) encodable,
      bytesFrom_dangling free]
    rfl

theorem decode_of_surrogate {items : List Item} {place : Fin 0x800} {rest : Text}
    (encodable : ∀ item ∈ items, item.isEncodable = true) (seen : isDangling rest = false) :
    decode (items.flatMap Item.text ++ .surrogate place :: rest) = .error (.conversion (.surrogates
      (.ofSurrogate (items.rtakeWhile Item.isPlain).length place rest))) := by
  refine Unencodable.decode_eq ?_
  unfold Unencodable
  rw [bytes, bytesFrom_items_append encodable, foldl_column, bytesFrom, if_neg (by simp [seen])]
  rfl

/-- Items can all be converted, or one of them is the first lone surrogate. -/
theorem encodable_or_surrogate (items : List Item) :
    (∀ item ∈ items, item.isEncodable = true) ∨
      ∃ (front back : List Item) (place : Fin 0x800),
        (∀ item ∈ front, item.isEncodable = true) ∧ items.flatMap Item.text =
          front.flatMap Item.text ++ .surrogate place :: back.flatMap Item.text := by
  cases found : items.find? (!·.isEncodable) with
  | none => exact .inl fun item member => by simpa using List.find?_eq_none.1 found item member
  | some item =>
    obtain ⟨refused, front, back, rfl, encodable⟩ := List.find?_eq_some_iff_append.1 found
    refine .inr ⟨front, back, ?_⟩
    match item, refused with
    | .plain (.surrogate place) _, _ =>
      exact ⟨place, fun item member => by simpa using encodable item member, by simp [Item.text]⟩

/-- What a body is decoded to: the bytes of its items if they can all be converted, or a fault for a
defect that is seen, or what is told of a lone surrogate. -/
inductive Decoded : Text → Except (Failure Fault) Bytes → Prop
  | bytes {items : List Item} (encodable : ∀ item ∈ items, item.isEncodable = true) :
    Decoded (items.flatMap Item.text) (.ok (items.flatMap Item.value))
  | defect {items : List Item} {rest : Text} {reason : EscapeFault} (defect : Defect rest reason)
    (encodable : ∀ item ∈ converted items reason, item.isEncodable = true) :
    Decoded (items.flatMap Item.text ++ rest)
      (.error (.fault (.invalidEscape (items.flatMap Item.text ++ rest) reason)))
  | surrogate {items : List Item} {place : Fin 0x800} {rest : Text}
    (encodable : ∀ item ∈ items, item.isEncodable = true) (seen : isDangling rest = false) :
    Decoded (items.flatMap Item.text ++ .surrogate place :: rest) (.error (.conversion (.surrogates
      (.ofSurrogate (items.rtakeWhile Item.isPlain).length place rest))))

theorem Decoded.decode_eq {body : Text} {result : Except (Failure Fault) Bytes}
    (decoded : Decoded body result) : decode body = result := by
  cases decoded with
  | bytes encodable => exact decode_items encodable
  | defect defect encodable => exact decode_of_defect defect encodable
  | surrogate encodable seen => exact decode_of_surrogate encodable seen

/-- The first lone surrogate decides, unless the text behind it is plain up to a backslash that is
left over. -/
theorem exists_decoded_of_surrogate {items : List Item} {place : Fin 0x800} {rest : Text}
    (encodable : ∀ item ∈ items, item.isEncodable = true) :
    ∃ result, Decoded (items.flatMap Item.text ++ .surrogate place :: rest) result := by
  cases seen : isDangling rest with
  | false => exact ⟨_, .surrogate encodable seen⟩
  | true =>
    obtain ⟨plain, rfl, free⟩ := eq_of_isDangling seen
    obtain ⟨more, rfl, all⟩ := exists_plain free
    let behind := Item.plain (.surrogate place) nofun :: more
    have text : (items ++ behind).flatMap Item.text ++ [.char '\\'] =
        items.flatMap Item.text ++
          .surrogate place :: (more.flatMap Item.text ++ [.char '\\']) := by
      simp [behind, Item.text]
    rw [← text]
    refine ⟨_, .defect .dangling fun item member => encodable item ?_⟩
    have skipped : ∀ item ∈ behind.reverse, item.isPlain = true := fun item member =>
      (List.forall_mem_cons.2 ⟨rfl, all⟩ : ∀ item ∈ behind, item.isPlain = true) item
        (List.mem_reverse.1 member)
    rw [converted, List.rdropWhile, List.reverse_append,
      List.dropWhile_append_of_pos skipped] at member
    exact (List.rdropWhile_prefix Item.isPlain items).subset member

theorem exists_decoded (body : Text) : ∃ result, Decoded body result := by
  rcases divided_or_defect body with ⟨items, rfl⟩ | ⟨items, rest, reason, rfl, defect⟩
  · rcases encodable_or_surrogate items with encodable | ⟨front, back, place, encodable, text⟩
    · exact ⟨_, .bytes encodable⟩
    · rw [text]
      exact exists_decoded_of_surrogate encodable
  · rcases encodable_or_surrogate items with encodable | ⟨front, back, place, encodable, text⟩
    · refine ⟨_, .defect defect fun item member => encodable item ?_⟩
      cases reason with
      | unrecognised => exact member
      | dangling => exact (List.rdropWhile_prefix Item.isPlain items).subset member
    · rw [text, List.append_assoc]
      exact exists_decoded_of_surrogate encodable

theorem decode_eq_iff {body : Text} {result : Except (Failure Fault) Bytes} :
    decode body = result ↔ Decoded body result := by
  constructor
  · intro h
    obtain ⟨other, decoded⟩ := exists_decoded body
    rwa [← h, decoded.decode_eq]
  · exact Decoded.decode_eq

theorem decode_eq_ok_iff {body : Text} {bs : Bytes} : decode body = .ok bs ↔
    ∃ items : List Item, body = items.flatMap Item.text ∧
      (∀ item ∈ items, item.isEncodable = true) ∧ bs = items.flatMap Item.value := by
  rw [decode_eq_iff]
  constructor
  · rintro ⟨encodable⟩
    exact ⟨_, rfl, encodable, rfl⟩
  · rintro ⟨items, rfl, encodable, rfl⟩
    exact .bytes encodable

theorem decode_eq_fault_iff {body : Text} {fault : Fault} : decode body = .error (.fault fault) ↔
    ∃ (items : List Item) (rest : Text) (reason : EscapeFault),
      body = items.flatMap Item.text ++ rest ∧ Defect rest reason ∧
        (∀ item ∈ converted items reason, item.isEncodable = true) ∧
        fault = .invalidEscape body reason := by
  rw [decode_eq_iff]
  constructor
  · intro decoded
    cases decoded with
    | defect defect encodable => exact ⟨_, _, _, rfl, defect, encodable, rfl⟩
  · rintro ⟨items, rest, reason, rfl, defect, encodable, rfl⟩
    exact .defect defect encodable

theorem decode_eq_conversion_iff {body : Text} {cause : Unconvertible} :
    decode body = .error (.conversion cause) ↔
      ∃ (items : List Item) (place : Fin 0x800) (rest : Text),
        body = items.flatMap Item.text ++ .surrogate place :: rest ∧
          (∀ item ∈ items, item.isEncodable = true) ∧ isDangling rest = false ∧
          cause = .surrogates
            (.ofSurrogate (items.rtakeWhile Item.isPlain).length place rest) := by
  rw [decode_eq_iff]
  constructor
  · intro decoded
    cases decoded with
    | surrogate encodable seen => exact ⟨_, _, _, rfl, encodable, seen, rfl⟩
  · rintro ⟨items, place, rest, rfl, encodable, seen, rfl⟩
    exact .surrogate encodable seen

theorem decode_append {a b : Text} {first second : Bytes} (ha : decode a = .ok first)
    (hb : decode b = .ok second) : decode (a ++ b) = .ok (first ++ second) := by
  obtain ⟨front, rfl, left, rfl⟩ := decode_eq_ok_iff.1 ha
  obtain ⟨back, rfl, right, rfl⟩ := decode_eq_ok_iff.1 hb
  exact decode_eq_ok_iff.2 ⟨front ++ back, List.flatMap_append.symm,
    List.forall_mem_append.2 ⟨left, right⟩, List.flatMap_append.symm⟩

theorem decode_hexEscapes (upper : Bool) (bs : Bytes) :
    decode (bs.flatMap (hexEscape upper)) = .ok bs := by
  have done (column : Nat) : bytesFrom column [] = .ok [] := rfl
  have whole := bytesFrom_hexEscapes done upper bs 0
  rw [List.append_nil, List.append_nil] at whole
  exact decode_of_bytes whole

/-- A body stands for the bytes of the items into which it is divided, in the one way there is, if
there is no lone surrogate among them, and one that cannot be divided is refused for the first
backslash that begins no item. A lone surrogate that is converted before such a backslash is seen is
told instead, which is no fault. So bodies that are joined stand for their bytes together, and any
bytes can be written digit by digit. -/
theorem escapes_divided (body : Text) :
    (∀ bs, decode body = .ok bs ↔ ∃ items : List Item, body = items.flatMap Item.text ∧
      (∀ item ∈ items, item.isEncodable = true) ∧ bs = items.flatMap Item.value) ∧
    (∀ items others : List Item, body = items.flatMap Item.text →
      body = others.flatMap Item.text → items = others) ∧
    (∀ fault, decode body = .error (.fault fault) ↔
      ∃ (items : List Item) (rest : Text) (reason : EscapeFault),
        body = items.flatMap Item.text ++ rest ∧ Defect rest reason ∧
          (∀ item ∈ converted items reason, item.isEncodable = true) ∧
          fault = .invalidEscape body reason) ∧
    (∀ cause, decode body = .error (.conversion cause) ↔
      ∃ (items : List Item) (place : Fin 0x800) (rest : Text),
        body = items.flatMap Item.text ++ .surrogate place :: rest ∧
          (∀ item ∈ items, item.isEncodable = true) ∧ isDangling rest = false ∧
          cause = .surrogates
            (.ofSurrogate (items.rtakeWhile Item.isPlain).length place rest)) ∧
    (∀ more first second, decode body = .ok first → decode more = .ok second →
      decode (body ++ more) = .ok (first ++ second)) ∧
    ∀ upper bs, decode (bs.flatMap (hexEscape upper)) = .ok bs := by
  refine ⟨fun _ => decode_eq_ok_iff, ?_, fun _ => decode_eq_fault_iff,
    fun _ => decode_eq_conversion_iff, fun _ _ _ => decode_append, decode_hexEscapes⟩
  rintro items others rfl same
  exact flatMap_text_injective same

/-- A pair of backslashes stands in front of a backslash that only one digit follows. -/
theorem escapes_divided_one_digit :
    let front := "é\\x41\\\\".toText
    let body := front ++ "\\x4g\\".toText
    decode (front ++ "\\n".toText) = .ok [0xc3, 0xa9, 0x41, 0x5c, 10] ∧
      (∀ items : List Item, front = items.flatMap Item.text → items =
        [.plain (.char 'é') (by decide), .hexadecimal (.char '4') (.char '1') 4 1 rfl rfl,
          .control (.char '\\') 92 (by decide)]) ∧
      ∃ (items : List Item) (rest : Text), body = items.flatMap Item.text ++ rest ∧
        Defect rest (.unrecognised [.char 'x']) := by
  intro front body
  have failed : decode body =
      .error (.fault (.invalidEscape body (.unrecognised [.char 'x']))) := by
    decide
  have first : decode front = .ok [0xc3, 0xa9, 0x41, 0x5c] := by decide
  have second : decode "\\n".toText = .ok [10] := by decide
  obtain ⟨-, unique, -, -, joined, -⟩ := escapes_divided front
  refine ⟨joined "\\n".toText _ _ first second, ?_, ?_⟩
  · exact fun items own => unique items _ own (by decide)
  · obtain ⟨items, rest, reason, own, defect, -, same⟩ :=
      ((escapes_divided body).2.2.1 _).1 failed
    cases same
    exact ⟨items, rest, own, defect⟩

/-- A lone surrogate is one character other than a backslash and stands for no bytes, and it hides
the wrong escape behind it. -/
theorem escapes_divided_lone_surrogate :
    let body : Text := [.surrogate 0]
    (∃ items : List Item, body = items.flatMap Item.text ∧ ∀ bs, decode body ≠ .ok bs) ∧
      Defect "\\q".toText (.unrecognised [.char 'q']) ∧
      ∀ fault, decode (body ++ "\\q".toText) ≠ .error (.fault fault) := by
  intro body
  have alone : decode body = .error (.conversion (.surrogates ⟨0, 0, 1⟩)) := by decide
  have followed : decode (body ++ "\\q".toText) =
      .error (.conversion (.surrogates ⟨0, 0, 1⟩)) := by
    decide
  refine ⟨⟨[.plain (.surrogate 0) nofun], rfl, fun bs h => ?_⟩, ?_, fun fault h => ?_⟩
  · rw [alone] at h
    cases h
  · refine .unrecognised fun item ⟨rest, begins⟩ => ?_
    cases item with
    | plain c other => exact other (List.cons.inj begins).1
    | control name byte known =>
      have named : name = .char 'q' := (List.cons.inj (List.cons.inj begins).2).1
      rw [named, ← control?_eq_some_iff] at known
      cases known
    | hexadecimal => cases (List.cons.inj (List.cons.inj begins).2).1
  · rw [followed] at h
    cases h

end MipsImage.StringBody
