import MipsImage.Image
import MipsImage.Proofs.Address

/-!
# Layout

Labels are given addresses before anything is encoded, and the image is laid out by counting the
bytes that are already there. Both agree: every block fills the image exactly from its own address
to that of the next block, with the bytes that its fragment stands for.
-/
set_option autoImplicit false

namespace MipsImage

theorem Bytes.bigEndian_length (width n : Nat) : (Bytes.bigEndian width n).length = width := by
  induction width generalizing n with
  | zero => rfl
  | succ width ih => rw [Bytes.bigEndian, List.length_append, ih, List.length_singleton]

theorem Bytes.zeros_length (count : Nat) : (Bytes.zeros count).length = count :=
  List.length_replicate

/-- The bytes from `start` to `stop` are what a fragment stands for. -/
inductive Fragment.Fills (symbols : SymbolTable) (start stop : Int) : Fragment → Bytes → Prop
  | instruction {text : Text} {half : Option Half} {notes : List Truncation} {word : Word}
      (encoded : encode symbols half text = ⟨notes, .ok word⟩) :
      Fills symbols start stop (.instruction text half) (Bytes.bigEndian 4 word.toNat)
  | data (bytes : Bytes) : Fills symbols start stop (.data bytes) bytes
  | space (count : Nat) : Fills symbols start stop (.space count) (Bytes.zeros count)
  | align {boundary : Nat}
      (least : IsLeast {bound : Int | (boundary : Int) ∣ bound ∧ start ≤ bound} stop) :
      Fills symbols start stop (.align boundary) (Bytes.zeros (stop - start).toNat)

namespace Image

/-! ## Counting bytes -/

/-- How many bytes there are after blocks that come after `emitted` bytes. -/
def sizeAfter (emitted : Nat) (blocks : List Block) : Nat :=
  blocks.foldl (fun emitted block => emitted + addedSize emitted block.fragment) emitted

theorem sizeAfter_cons (emitted : Nat) (block : Block) (rest : List Block) :
    sizeAfter emitted (block :: rest) =
      sizeAfter (emitted + addedSize emitted block.fragment) rest := rfl

/-- The next address is as far from an address as the bytes of the fragment are many. -/
theorem endFrom_eq_add_addedSize (emitted : Nat) (fragment : Fragment) (proper : fragment.Proper) :
    fragment.endFrom emitted = (emitted + addedSize emitted fragment : Nat) := by
  cases fragment with
  | instruction text half => rfl
  | data bytes => rfl
  | space count => rfl
  | align boundary =>
    have h := le_alignUp emitted boundary (Int.natCast_pos.2 proper)
    simp only [Fragment.endFrom, addedSize]
    omega

theorem endOf_eq_sizeAfter (emitted : Nat) (blocks : List Block)
    (proper : ∀ block ∈ blocks, block.fragment.Proper) :
    endOf emitted blocks = sizeAfter emitted blocks := by
  induction blocks generalizing emitted with
  | nil => rfl
  | cons block rest ih =>
    rw [endOf_cons, sizeAfter_cons,
      endFrom_eq_add_addedSize emitted block.fragment (proper block (List.mem_cons_self ..))]
    exact ih _ fun other h => proper other (List.mem_cons_of_mem block h)

/-! ## Pieces -/

/-- The bytes of one block that comes after `emitted` bytes. -/
def piece (symbols : SymbolTable) (emitted : Nat) (block : Block) : Assembling Bytes :=
  match block.fragment with
  | .instruction text half =>
    (Outcome.atLine block.line (encode symbols half text)).bind fun word =>
      Outcome.ok (Bytes.bigEndian 4 word.toNat)
  | fragment => Outcome.ok (filling (addedSize emitted fragment) fragment)

theorem ofBlocksFrom_nil (symbols : SymbolTable) (emitted : Nat) :
    ofBlocksFrom symbols emitted [] = Outcome.ok [] := rfl

theorem ofBlocksFrom_cons (symbols : SymbolTable) (emitted : Nat) (block : Block)
    (rest : List Block) :
    ofBlocksFrom symbols emitted (block :: rest) =
      (piece symbols emitted block).bind fun first =>
        (ofBlocksFrom symbols (emitted + addedSize emitted block.fragment) rest).bind fun more =>
          Outcome.ok (first ++ more) := by
  obtain ⟨line, labels, fragment⟩ := block
  rw [ofBlocksFrom]
  cases fragment with
  | instruction text half =>
    simp only [piece, Outcome.bind_assoc, Outcome.ok_bind]
    rfl
  | data bytes => exact (Outcome.ok_bind _ _).symm
  | space count => exact (Outcome.ok_bind _ _).symm
  | align boundary => exact (Outcome.ok_bind _ _).symm

theorem ofBlocksFrom_append (symbols : SymbolTable) (emitted : Nat) (front back : List Block) :
    ofBlocksFrom symbols emitted (front ++ back) =
      (ofBlocksFrom symbols emitted front).bind fun first =>
        (ofBlocksFrom symbols (sizeAfter emitted front) back).bind fun second =>
          Outcome.ok (first ++ second) := by
  induction front generalizing emitted with
  | nil =>
    rw [List.nil_append, ofBlocksFrom_nil, Outcome.ok_bind]
    exact (Outcome.bind_ok _).symm
  | cons block rest ih =>
    simp only [List.cons_append, ofBlocksFrom_cons, ih, sizeAfter_cons, Outcome.bind_assoc,
      Outcome.ok_bind, List.append_assoc]

theorem piece_length {symbols : SymbolTable} {emitted : Nat} {block : Block}
    {warnings : List Warning} {bytes : Bytes}
    (h : piece symbols emitted block = ⟨warnings, .ok bytes⟩) :
    bytes.length = addedSize emitted block.fragment := by
  obtain ⟨line, labels, fragment⟩ := block
  cases fragment with
  | instruction text half =>
    obtain ⟨word, _, _, -, hword, -⟩ := Outcome.bind_eq_ok_iff.1 h
    cases hword
    exact Bytes.bigEndian_length 4 word.toNat
  | data bytes => cases h; rfl
  | space count => cases h; exact Bytes.zeros_length count
  | align boundary => cases h; exact Bytes.zeros_length _

theorem piece_fills {symbols : SymbolTable} {emitted : Nat} {block : Block}
    {warnings : List Warning} {bytes : Bytes} (proper : block.fragment.Proper)
    (h : piece symbols emitted block = ⟨warnings, .ok bytes⟩) :
    block.fragment.Fills symbols emitted (block.fragment.endFrom emitted) bytes := by
  obtain ⟨line, labels, fragment⟩ := block
  cases fragment with
  | instruction text half =>
    obtain ⟨word, _, _, hline, hword, -⟩ := Outcome.bind_eq_ok_iff.1 h
    obtain ⟨notes, encoded, -⟩ := Outcome.atLine_eq_ok_iff.1 hline
    cases hword
    exact .instruction encoded
  | data bytes => cases h; exact .data bytes
  | space count => cases h; exact .space count
  | align boundary =>
    cases h
    exact .align (alignUp_isLeast emitted boundary (Int.natCast_pos.2 proper))

/-- An image has as many bytes as were counted. -/
theorem ofBlocksFrom_length {symbols : SymbolTable} {emitted : Nat} {blocks : List Block}
    {warnings : List Warning} {image : Bytes}
    (h : ofBlocksFrom symbols emitted blocks = ⟨warnings, .ok image⟩) :
    emitted + image.length = sizeAfter emitted blocks := by
  induction blocks generalizing emitted warnings image with
  | nil => cases h; rfl
  | cons block rest ih =>
    rw [ofBlocksFrom_cons] at h
    obtain ⟨first, _, _, hfirst, hrest, -⟩ := Outcome.bind_eq_ok_iff.1 h
    obtain ⟨more, _, _, hmore, himage, -⟩ := Outcome.bind_eq_ok_iff.1 hrest
    cases himage
    have counted := ih hmore
    rw [List.length_append, piece_length hfirst, sizeAfter_cons, ← counted]
    omega

/-- The image of blocks falls into the images of those before a block, of the block itself and of
those after it. -/
theorem ofBlocksFrom_split {symbols : SymbolTable} {emitted : Nat} {front back : List Block}
    {block : Block} {warnings : List Warning} {image : Bytes}
    (h : ofBlocksFrom symbols emitted (front ++ block :: back) = ⟨warnings, .ok image⟩) :
    ∃ first middle last notes, image = first ++ (middle ++ last) ∧
      emitted + first.length = sizeAfter emitted front ∧
      piece symbols (sizeAfter emitted front) block = ⟨notes, .ok middle⟩ := by
  rw [ofBlocksFrom_append] at h
  obtain ⟨first, _, _, hfirst, hback, -⟩ := Outcome.bind_eq_ok_iff.1 h
  obtain ⟨second, _, _, hsecond, himage, -⟩ := Outcome.bind_eq_ok_iff.1 hback
  rw [ofBlocksFrom_cons] at hsecond
  obtain ⟨middle, notes, _, hmiddle, hlast, -⟩ := Outcome.bind_eq_ok_iff.1 hsecond
  obtain ⟨last, _, _, -, hjoin, -⟩ := Outcome.bind_eq_ok_iff.1 hlast
  cases himage
  cases hjoin
  exact ⟨first, middle, last, notes, rfl, ofBlocksFrom_length hfirst, hmiddle⟩

/-- The image of blocks ends at the address after them. -/
theorem ofBlocks_length {symbols : SymbolTable} {blocks : List Block} {warnings : List Warning}
    {image : Bytes} (proper : ∀ block ∈ blocks, block.fragment.Proper)
    (h : ofBlocks symbols blocks = ⟨warnings, .ok image⟩) :
    (image.length : Int) = endOf 0 blocks := by
  have counted := ofBlocksFrom_length h
  rw [Nat.zero_add] at counted
  rw [counted]
  exact (endOf_eq_sizeAfter 0 blocks proper).symm

end Image

/-! ## Both passes together -/

theorem Image.extract_fills {symbols : SymbolTable} {blocks : List Block}
    {warnings : List Warning} {image : Bytes}
    (proper : ∀ block ∈ blocks, block.fragment.Proper)
    (h : Image.ofBlocks symbols blocks = ⟨warnings, .ok image⟩) (i : Nat) (hi : i < blocks.length) :
    blocks[i].fragment.Fills symbols (Block.address blocks i) (Block.address blocks (i + 1))
      (image.extract (Block.address blocks i).toNat (Block.address blocks (i + 1)).toNat) := by
  have hsplit : blocks = blocks.take i ++ blocks[i] :: blocks.drop (i + 1) := by
    rw [← List.drop_eq_getElem_cons hi, List.take_append_drop]
  have hproper := proper blocks[i] (List.getElem_mem hi)
  rw [Image.ofBlocks, hsplit] at h
  obtain ⟨first, middle, last, notes, rfl, hfirst, hmiddle⟩ := Image.ofBlocksFrom_split h
  rw [Nat.zero_add] at hfirst
  have hstart : Block.address blocks i = first.length := by
    rw [hfirst]
    exact Image.endOf_eq_sizeAfter 0 (blocks.take i)
      fun block hblock => proper block (List.mem_of_mem_take hblock)
  rw [← hfirst] at hmiddle
  have hstop : Block.address blocks (i + 1) = (first.length + middle.length : Nat) := by
    rw [Block.address_succ blocks i hi, hstart, Image.piece_length hmiddle]
    exact Image.endFrom_eq_add_addedSize first.length blocks[i].fragment hproper
  have hfills := Image.piece_fills hproper hmiddle
  rw [← hstart, ← Block.address_succ blocks i hi] at hfills
  rw [hstop, hstart, Int.toNat_natCast, Int.toNat_natCast, List.extract_eq_take_drop,
    List.drop_left, Nat.add_sub_cancel_left, List.take_left, ← hstart, ← hstop]
  exact hfills

/-- The table and the image that come from the same blocks agree on where everything stands,
whatever symbols the image was encoded with. -/
theorem table_and_image_agree (blocks : List Block) (symbols table : SymbolTable)
    (warnings : List Warning) (image : Bytes)
    (proper : ∀ block ∈ blocks, block.fragment.Proper)
    (placed : SymbolTable.ofBlocks blocks = .ok table)
    (encoded : Image.ofBlocks symbols blocks = ⟨warnings, .ok image⟩) :
    Block.address blocks 0 = 0 ∧
    (image.length : Int) = Block.address blocks blocks.length ∧
    (table.map Prod.fst).Nodup ∧
    (∀ name, (∃ place, table.lookup name = some place) ↔ ∃ block ∈ blocks, name ∈ block.labels) ∧
    ∀ i (h : i < blocks.length),
      Block.address blocks (i + 1) = blocks[i].fragment.endFrom (Block.address blocks i) ∧
      (∀ name ∈ blocks[i].labels, table.lookup name = some (Block.address blocks i)) ∧
      blocks[i].fragment.Fills symbols (Block.address blocks i) (Block.address blocks (i + 1))
        (image.extract (Block.address blocks i).toNat (Block.address blocks (i + 1)).toNat) := by
  obtain ⟨distinct, rfl⟩ := SymbolTable.ofBlocks_eq_ok_iff.1 placed
  rw [← Block.map_fst_placements 0 blocks] at distinct
  have hlookup : ∀ i (h : i < blocks.length), ∀ name ∈ blocks[i].labels,
      (Block.placements 0 blocks).lookup name = some (Block.address blocks i) := by
    intro i h name hname
    exact SymbolTable.lookup_eq_some_of_mem distinct
      (Block.mem_placements_iff.2 ⟨i, h, hname, rfl⟩)
  have hkeys : ∀ name, (∃ place, (Block.placements 0 blocks).lookup name = some place) ↔
      ∃ block ∈ blocks, name ∈ block.labels := by
    intro name
    constructor
    · rintro ⟨place, hplace⟩
      obtain ⟨i, h, hname, -⟩ := Block.mem_placements_iff.1 (SymbolTable.mem_of_lookup hplace)
      exact ⟨blocks[i], List.getElem_mem h, hname⟩
    · rintro ⟨block, hblock, hname⟩
      obtain ⟨i, h, rfl⟩ := List.getElem_of_mem hblock
      exact ⟨Block.address blocks i, hlookup i h name hname⟩
  refine ⟨Block.address_zero blocks, ?_, distinct, hkeys, ?_⟩
  · rw [Block.address_length]
    exact Image.ofBlocks_length proper encoded
  · intro i h
    exact ⟨Block.address_succ blocks i h, hlookup i h, Image.extract_fills proper encoded i h⟩

/-- Labels stand on data, on padding, on no bytes at all and on an instruction, and the image is
encoded with a symbol table of its own. -/
theorem table_and_image_agree_five_blocks :
    let blocks : List Block :=
      [⟨1, ["start".toText], .data [7]⟩, ⟨2, ["pad".toText], .align 4⟩,
       ⟨3, ["here".toText, "there".toText], .data []⟩,
       ⟨4, ["last".toText], .instruction "addi $t0, $0, 70000".toText none⟩,
       ⟨5, [], .instruction "j last".toText none⟩]
    let table : SymbolTable :=
      [("start".toText, 0), ("pad".toText, 1), ("here".toText, 4), ("there".toText, 4),
       ("last".toText, 4)]
    let image : Bytes := [7, 0, 0, 0, 0x20, 0x08, 0x11, 0x70, 0x08, 0, 0, 12]
    (∀ block ∈ blocks, block.fragment.Proper) ∧
    SymbolTable.ofBlocks blocks = .ok table ∧
    Image.ofBlocks [("last".toText, 12)] blocks = ⟨[⟨4, ⟨"70000".toText, 16⟩⟩], .ok image⟩ ∧
    (image.length : Int) = Block.address blocks 5 ∧
    table.lookup "last".toText = some (Block.address blocks 3) ∧
    (Fragment.instruction "addi $t0, $0, 70000".toText none).Fills [("last".toText, 12)]
      (Block.address blocks 3) (Block.address blocks 4) [0x20, 0x08, 0x11, 0x70] := by
  intro blocks table image
  have proper : ∀ block ∈ blocks, block.fragment.Proper := by decide
  have placed : SymbolTable.ofBlocks blocks = .ok table := by rfl
  have encoded : Image.ofBlocks [("last".toText, 12)] blocks =
      ⟨[⟨4, ⟨"70000".toText, 16⟩⟩], .ok image⟩ := by rfl
  obtain ⟨-, hlength, -, -, h⟩ :=
    table_and_image_agree blocks _ table _ image proper placed encoded
  obtain ⟨-, hlookup, hfills⟩ := h 3 (by decide)
  exact ⟨proper, placed, encoded, hlength, hlookup _ (List.mem_cons_self ..), hfills⟩

end MipsImage
