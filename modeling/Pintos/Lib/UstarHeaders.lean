import Mathlib.Algebra.Order.BigOperators.Group.List
import Mathlib.Data.Nat.Digits.Lemmas
import Pintos.Lib.Ustar

/-!
# Archive headers round trip

A header that `ustar_make_header` composes is parsed by `ustar_parse_header` to the
stripped name, the type and the size it was composed for. Numbers are written as octal
digits with leading zeros, which `parse_octal_field` reads back. The checksum is
computed over everything but its own field, so storing it does not change it.
-/

namespace Pintos

namespace Ustar

open Stdio

def octalDigit (digit : ℕ) : Byte := BitVec.ofNat 8 (48 + digit)

def octalText (width value : ℕ) : List Byte :=
  ((Nat.digitsAppend 8 width value).map octalDigit).reverse

section Octal

variable {width val : ℕ}

lemma octalText_length (fits : val < 8 ^ width) : (octalText width val).length = width := by
  rw [octalText, List.length_reverse, List.length_map,
    Nat.length_digitsAppend (by decide) width fits]

lemma digitLoop_octal (val digitCnt : ℕ) :
  digitLoop false baseO val digitCnt = (Nat.digits 8 val).map octalDigit := by
  induction val using Nat.strong_induction_on generalizing digitCnt with
  | _ val ih =>
    rw [digitLoop]
    split
    · next pos =>
        have digit : byteOf (baseO.digits.getD (val % 8) '0') = octalDigit (val % 8) := by
          have small := Nat.mod_lt val (show 8 > 0 by decide)
          generalize val % 8 = digit at small
          interval_cases digit <;> rfl
        have smaller := ih (val / 8) (Nat.div_lt_self pos (by decide)) (digitCnt + 1)
        rw [Nat.digits_def' (by decide) pos]
        exact congrArg₂ List.cons digit smaller
    next zero =>
      rw [Nat.eq_zero_of_not_pos zero]
      rfl

def octalConversion (width : ℕ) : PrintfConversion where
  flags := { zero := true }
  width := width
  precision := none
  type := .int

lemma formatInteger_octal (pos : 0 < width) :
  formatInteger val false false baseO (octalConversion width) = octalText width val := by
  have zero : octalDigit 0 = byteOf '0' := rfl
  rw [octalText, Nat.digitsAppend]
  simp only [formatInteger, octalConversion, signOf, digitLoop_octal, Bool.false_eq_true,
    false_and, if_false, false_or, if_true, Option.isSome_none, Option.elim_none,
    List.length_nil, Option.getD_none, List.nil_append, List.append_nil, Nat.sub_zero]
  generalize Nat.digits 8 val = digits
  simp only [List.map_append, List.reverse_append, List.map_replicate, List.reverse_replicate,
    zero, List.length_append, List.length_map, List.length_replicate]
  rw [← List.append_assoc, List.replicate_append_replicate]
  congr 2
  omega

lemma vprintf_octal {format : List Char} {num : Word} (pos : 0 < width)
  (notPercent : format.head? ≠ some '%')
  (parsed : ∀ args, parseConversion format args = .ok (octalConversion width, ['o'], args)) :
  vprintf ('%' :: format) [.word num] = .ok (octalText width num.toNat) := by
  have converted : convert (octalConversion width) 'o' [.word num] =
      .ok (octalText width num.toNat, []) := by
    rw [← formatInteger_octal pos]
    rfl
  have nothing : vprintf [] [] = .ok [] := by rw [vprintf]
  rw [vprintf]
  · split
    · next same =>
        rw [parsed] at same
        cases same
        rw [converted]
        simp [bind, Except.bind, nothing, pure, Except.pure]
    · next same =>
        rw [parsed] at same
        cases same
    next same =>
      rw [parsed] at same
      cases same
  rintro rest rfl
  exact notPercent rfl

def octalValue (value : ℕ) (digits : List ℕ) : ℕ :=
  digits.foldl (fun value digit => digit + value * 8) value

lemma le_octalValue (val : ℕ) (digits : List ℕ) : val ≤ octalValue val digits := by
  induction digits generalizing val with
  | nil => exact le_rfl
  | cons digit digits ih =>
    have step := ih (digit + val * 8)
    exact le_trans (by omega) step

lemma parseOctalLoop_digits {digits : List ℕ} {ofs : ℕ} (rest : List Byte)
  (areDigits : ∀ digit ∈ digits, digit < 8) (fits : octalValue val digits ≤ ulongMax)
  (notEmpty : 0 < ofs + digits.length) :
  parseOctalLoop (digits.map octalDigit ++ 0 :: rest) ofs val = some (octalValue val digits) := by
  induction digits generalizing ofs val with
  | nil =>
    rw [List.map_nil, List.nil_append, parseOctalLoop, if_neg (by decide), if_pos (Or.inr rfl),
      if_pos (show 0 < ofs from notEmpty)]
    rfl
  | cons digit digits ih =>
    have isDigit := areDigits digit List.mem_cons_self
    have later := fits
    have bound := (le_octalValue (digit + val * 8) digits).trans later
    have toNat : (octalDigit digit).toNat = 48 + digit := by
      rw [octalDigit, BitVec.toNat_ofNat, Nat.mod_eq_of_lt (by omega)]
    have small : ¬ val > ulongMax / 8 := by
      omega
    rw [List.map_cons, List.cons_append, parseOctalLoop, toNat, if_pos (by omega),
      if_neg small, Nat.add_sub_cancel_left,
      ih (fun digit isDigit => areDigits digit (List.mem_cons_of_mem _ isDigit)) later (by omega)]
    rfl

lemma octalValue_reverse (digits : List ℕ) :
  octalValue 0 digits.reverse = Nat.ofDigits 8 digits := by
  rw [octalValue, Nat.ofDigits_eq_foldr]
  simp [Nat.mul_comm]

lemma parseOctalLoop_octalText (rest : List Byte) (pos : 0 < width)
  (fits : val < 8 ^ width) (bounded : val ≤ ulongMax) :
  parseOctalLoop (octalText width val ++ 0 :: rest) 0 0 = some val := by
  have isVal : octalValue 0 (Nat.digitsAppend 8 width val).reverse = val := by
    rw [octalValue_reverse, Nat.digitsAppend, Nat.ofDigits_append_replicate_zero,
      Nat.ofDigits_digits]
  have areDigits : ∀ digit ∈ (Nat.digitsAppend 8 width val).reverse, digit < 8 := by
    intro digit isDigit
    exact Nat.lt_of_mem_digitsAppend (by decide) width digit (List.mem_reverse.mp isDigit)
  have len : 0 < 0 + (Nat.digitsAppend 8 width val).reverse.length := by
    rw [List.length_reverse, Nat.length_digitsAppend (by decide) width fits]
    omega
  have parsed := parseOctalLoop_digits rest areDigits (isVal.le.trans bounded) len
  rw [List.map_reverse, isVal] at parsed
  exact parsed

end Octal

section Strip

variable {fileName : List Byte}

lemma stripLoop_of_not_isAntisocial (fine : ¬ IsAntisocial fileName) :
  stripLoop fileName = fileName := by
  rw [stripLoop, dif_neg fine]

lemma stripLoop_not_isAntisocial (fileName : List Byte) :
  ¬ IsAntisocial (stripLoop fileName) := by
  induction fileName using stripLoop.induct with
  | case1 fileName antisocial ih =>
    rw [stripLoop, dif_pos antisocial]
    exact ih
  | case2 fileName fine => rwa [stripLoop_of_not_isAntisocial fine]

lemma stripLoop_suffix (fileName : List Byte) : stripLoop fileName <:+ fileName := by
  induction fileName using stripLoop.induct with
  | case1 fileName antisocial ih =>
    rw [stripLoop, dif_pos antisocial]
    exact ih.trans ((List.tail_suffix _).trans (List.dropWhile_suffix _))
  | case2 fileName fine => rw [stripLoop_of_not_isAntisocial fine]

lemma stripAntisocialPrefixes_idem (fileName : List Byte) :
  stripAntisocialPrefixes (stripAntisocialPrefixes fileName) =
    stripAntisocialPrefixes fileName := by
  have dot : stripAntisocialPrefixes dotName = dotName := by
    rw [stripAntisocialPrefixes, stripLoop_of_not_isAntisocial (by decide)]
    decide
  by_cases replaced : stripLoop fileName = [] ∨ stripLoop fileName = dotDotName
  · rw [stripAntisocialPrefixes.eq_def fileName]
    simp only [if_pos replaced]
    exact dot
  rw [stripAntisocialPrefixes.eq_def fileName]
  simp only [if_neg replaced]
  rw [stripAntisocialPrefixes,
    stripLoop_of_not_isAntisocial (stripLoop_not_isAntisocial fileName)]
  simp only [if_neg replaced]

lemma not_mem_stripAntisocialPrefixes (noNul : 0 ∉ fileName) :
  0 ∉ stripAntisocialPrefixes fileName := by
  rw [stripAntisocialPrefixes]
  split
  · decide
  · exact fun member => noNul ((stripLoop_suffix fileName).subset member)

/-- How many bytes of a string `memcmp` and `strcmp` read to compare it with a literal. -/
def bytesCompared : List Byte → List Byte → ℕ
  | _, [] => 0
  | [], _ :: _ => 1
  | byte :: memory, wanted :: more =>
    if byte = wanted then bytesCompared memory more + 1 else 1

/-- A round of the loop reads no byte behind the null byte of its string, and finds a slash. -/
structure ReadsInside (fileName : List Byte) : Prop where
  compared : ∀ lit ∈ [[slash], dotName ++ [slash], dotDotName ++ [slash], [0], dotDotName ++ [0]],
    bytesCompared (fileName ++ [0]) lit ≤ fileName.length + 1
  finds : IsAntisocial fileName → slash ∈ fileName

/-- A name that the archive keeps as it is. -/
structure Sociable (name : List Byte) : Prop where
  ne_nil : name ≠ []
  fine : ¬ IsAntisocial name
  ne_dotDot : name ≠ dotDotName
  same : stripAntisocialPrefixes name = name

lemma bytesCompared_le {lit : List Byte} (noNul : 0 ∉ lit.dropLast) (name : List Byte) :
  bytesCompared (name ++ [0]) lit ≤ name.length + 1 := by
  induction lit generalizing name with
  | nil => simp [bytesCompared]
  | cons wanted more ih =>
    cases name with
    | nil =>
      by_cases same : 0 = wanted
      · cases more with
        | nil => simp [bytesCompared, ← same]
        | cons next more => exact absurd (List.mem_cons.mpr (Or.inl same)) noNul
      · exact (if_neg same).le
    | cons byte name =>
      have shorter := ih (fun member => noNul (by cases more <;> simp_all)) name
      rw [List.cons_append, bytesCompared]
      split <;> simp only [List.length_cons] <;> omega

lemma sociable_strip (fileName : List Byte) : Sociable (stripAntisocialPrefixes fileName) := by
  have idem := stripAntisocialPrefixes_idem fileName
  by_cases replaced : stripLoop fileName = [] ∨ stripLoop fileName = dotDotName
  · have isDot : stripAntisocialPrefixes fileName = dotName := if_pos replaced
    refine ⟨?_, ?_, ?_, idem⟩ <;> rw [isDot] <;> decide
  have isLoop : stripAntisocialPrefixes fileName = stripLoop fileName := if_neg replaced
  rcases not_or.mp replaced with ⟨notNil, notDots⟩
  exact ⟨isLoop ▸ notNil, isLoop ▸ stripLoop_not_isAntisocial fileName, isLoop ▸ notDots, idem⟩

theorem strips_safely :
    (∀ fileName : List Byte, ReadsInside fileName ∧ Sociable (stripAntisocialPrefixes fileName) ∧
      (stripAntisocialPrefixes fileName <:+ fileName ∨
        stripAntisocialPrefixes fileName = dotName)) ∧
      ∀ header entry, ustarParseHeader header = .ok entry →
        ∀ name ∈ entry.fileName, Sociable name := by
  refine ⟨fun fileName => ⟨⟨?_, ?_⟩, sociable_strip fileName, ?_⟩, ?_⟩
  · intro lit isLit
    refine bytesCompared_le ?_ fileName
    revert lit
    decide
  · rintro (isPrefix | isPrefix | isPrefix) <;> exact isPrefix.subset (by decide)
  · rw [stripAntisocialPrefixes]
    split
    · exact Or.inr rfl
    · exact Or.inl (stripLoop_suffix fileName)
  · intro header entry parsed name isName
    unfold ustarParseHeader at parsed
    grind [sociable_strip]

end Strip

section Compose

variable {fileName : List Byte} {type : UstarType} {size : ℤ} {hdr mem : ℕ → Byte} {dst : ℕ}
  {num : Word}

lemma snprintf_octal {dst width : ℕ} {format : List Char} (pos : 0 < width)
  (notPercent : format.head? ≠ some '%')
  (parsed : ∀ args, parseConversion format args = .ok (octalConversion width, ['o'], args))
  (fits : num.toNat < 8 ^ width) : snprintf mem dst (width + 1) ('%' :: format) [.word num] =
    .ok (storeAt mem dst (octalText width num.toNat ++ [0])) := by
  rw [snprintf, vsnprintf, vprintf_octal pos notPercent parsed]
  simp only [bind, Except.bind, pure, Except.pure, Nat.succ_pos, if_true, Nat.add_sub_cancel]
  rw [List.take_of_length_le (octalText_length fits).le]

lemma snprintf_seven (fits : num.toNat < 8 ^ 7) :
  snprintf mem dst 8 ['%', '0', '7', 'o'] [.word num] =
    .ok (storeAt mem dst (octalText 7 num.toNat ++ [0])) :=
  snprintf_octal (by decide) (by decide) (fun _ => rfl) fits

lemma snprintf_eleven :
  snprintf mem dst 12 ['%', '0', '1', '1', 'o'] [.word num] =
    .ok (storeAt mem dst (octalText 11 num.toNat ++ [0])) :=
  snprintf_octal (by decide) (by decide) (fun _ => rfl) (by
    have bound := num.isLt
    norm_num at bound ⊢
    omega)

lemma strlcpy_of_lt {dst cnt : ℕ} {src : List Byte} (fits : src.length < cnt) :
  strlcpy mem dst src cnt = storeAt mem dst (src ++ [0]) := by
  rw [strlcpy, if_pos (by omega), List.take_of_length_le (by omega)]

def fieldsOf (fileName : List Byte) (type : UstarType) (size : ℤ) : List (ℕ × List Byte) :=
  [(0, fileName ++ [0]),
    (100, octalText 7 (if type = .regular then 420 else 493 : Word).toNat ++ [0]),
    (108, List.replicate 7 (byteOf '0') ++ [0]), (116, List.replicate 7 (byteOf '0') ++ [0]),
    (124, octalText 11 (BitVec.ofInt 32 size).toNat ++ [0]),
    (136, octalText 11 (1136102400 : Word).toNat ++ [0]),
    (156, [type.flag]), (257, ['u', 's', 't', 'a', 'r'].map byteOf ++ [0]),
    (263, [byteOf '0', byteOf '0']), (297, ['r', 'o', 'o', 't'].map byteOf ++ [0]),
    (265, ['r', 'o', 'o', 't'].map byteOf ++ [0])]

def unchecked (fileName : List Byte) (type : UstarType) (size : ℤ) (header : ℕ → Byte) :
    ℕ → Byte :=
  storeAll (overlay header 0 ustarHeaderSize fun _ => 0) (fieldsOf fileName type size)

def composedFields (fileName : List Byte) (type : UstarType) (size : ℤ) (header : ℕ → Byte) :
    List (ℕ × List Byte) :=
  fieldsOf fileName type size ++
    [(148, octalText 7 (calculateChksum (unchecked fileName type size header)) ++ [0])]

def composed (fileName : List Byte) (type : UstarType) (size : ℤ) (header : ℕ → Byte) :
    ℕ → Byte :=
  storeAll (overlay header 0 ustarHeaderSize fun _ => 0)
    (composedFields fileName type size header)

lemma calculateChksum_lt (hdr : ℕ → Byte) : calculateChksum hdr < 8 ^ 7 := by
  have bound : calculateChksum hdr ≤ 512 * 255 := by
    have len : ((List.range ustarHeaderSize).map fun i =>
        if UstarHeader.chksum.start ≤ i ∧ i < UstarHeader.chksum.start + UstarHeader.chksum.size
          then 32 else (hdr i).toNat).length = 512 := by
      rw [List.length_map, List.length_range]
      rfl
    rw [← len]
    refine List.sum_le_card_nsmul _ _ ?_
    intro summand isSummand
    rcases List.mem_map.mp isSummand with ⟨idx, _, rfl⟩
    split <;> omega
  exact lt_of_le_of_lt bound (by decide)

lemma toNat_calculateChksum (hdr : ℕ → Byte) :
  (BitVec.ofNat 32 (calculateChksum hdr)).toNat = calculateChksum hdr := by
  exact Nat.mod_eq_of_lt ((calculateChksum_lt hdr).trans (by decide))

lemma snprintf_chksum : snprintf mem dst 8 ['%', '0', '7', 'o']
      [.word (BitVec.ofNat 32 (calculateChksum mem))] =
    .ok (storeAt mem dst (octalText 7 (calculateChksum mem) ++ [0])) := by
  have fits := calculateChksum_lt mem
  rw [← toNat_calculateChksum mem] at fits
  rw [snprintf_seven fits, toNat_calculateChksum]

lemma ustarMakeHeader_composed (isEntry : type ≠ .eof)
  (fits : (stripAntisocialPrefixes fileName).length ≤ 99) :
  ustarMakeHeader fileName type size hdr =
    .ok (true, composed (stripAntisocialPrefixes fileName) type size hdr) := by
  have modeFits : (if type = .regular then 420 else 493 : Word).toNat < 8 ^ 7 := by
    split <;> decide
  rw [ustarMakeHeader, if_neg isEntry]
  simp only [if_neg (show ¬ (stripAntisocialPrefixes fileName).length > 99 by omega)]
  simp only [UstarHeader.name, UstarHeader.mode, UstarHeader.uid, UstarHeader.gid,
    UstarHeader.size, UstarHeader.mtime, UstarHeader.chksum, UstarHeader.typeflag,
    UstarHeader.magic, UstarHeader.version, UstarHeader.uname, UstarHeader.gname,
    snprintf_seven modeFits, snprintf_eleven, snprintf_chksum, except_ok_bind,
    strlcpy_of_lt (show (stripAntisocialPrefixes fileName).length < 100 by omega),
    strlcpy_of_lt (show (List.replicate 7 (byteOf '0')).length < 8 by decide),
    strlcpy_of_lt (show (['u', 's', 't', 'a', 'r'].map byteOf).length < 6 by decide),
    strlcpy_of_lt (show (['r', 'o', 'o', 't'].map byteOf).length < 32 by decide)]
  rfl

lemma octalText_word_length (num : Word) : (octalText 11 num.toNat).length = 11 := by
  have bound := num.isLt
  exact octalText_length (bound.trans (by decide))

lemma composedFields_apart (fits : fileName.length ≤ 99) :
  (composedFields fileName type size hdr).Pairwise StoresApart := by
  have modeLen : (octalText 7 (if type = .regular then 420 else 493 : Word).toNat).length = 7 :=
    octalText_length (by split <;> decide)
  have sumLen := octalText_length (calculateChksum_lt (unchecked fileName type size hdr))
  simp only [composedFields, fieldsOf, List.cons_append, List.nil_append, List.pairwise_cons,
    List.mem_cons, List.not_mem_nil, or_false, forall_eq_or_imp, forall_eq, StoresApart,
    List.length_append, List.length_cons, List.length_nil, List.length_map,
    List.length_replicate, modeLen, sumLen, octalText_word_length]
  refine ⟨?_, ?_⟩
  · omega
  · simp

lemma composed_inside {start idx : ℕ} {cells : List Byte} {byte : Byte}
  (fits : fileName.length ≤ 99) (member : (start, cells) ∈ composedFields fileName type size hdr)
  (isByte : cells[idx]? = some byte) : composed fileName type size hdr (start + idx) = byte :=
  storeAll_inside (composedFields_apart fits) member isByte

lemma rangeOf_composed {start cnt : ℕ} {cells : List Byte} (fits : fileName.length ≤ 99)
  (member : (start, cells) ∈ composedFields fileName type size hdr) (isCnt : cnt = cells.length) :
  rangeOf (composed fileName type size hdr) start cnt = cells :=
  rangeOf_storeAll (composedFields_apart fits) member isCnt

lemma composed_unused {idx : ℕ} (inHdr : idx < 512)
  (unused : ∀ store ∈ composedFields fileName type size hdr,
    idx < store.1 ∨ store.1 + store.2.length ≤ idx) :
  composed fileName type size hdr idx = 0 := by
  rw [composed, storeAll_outside unused, overlay_inside (Nat.zero_le _)
    (by rw [Nat.zero_add]; exact inHdr)]

lemma composedFields_le (fits : fileName.length ≤ 99) :
  ∀ store ∈ composedFields fileName type size hdr, store.1 + store.2.length ≤ 345 := by
  have modeLen : (octalText 7 (if type = .regular then 420 else 493 : Word).toNat).length = 7 :=
    octalText_length (by split <;> decide)
  have sumLen := octalText_length (calculateChksum_lt (unchecked fileName type size hdr))
  simp only [composedFields, fieldsOf, List.cons_append, List.nil_append,
    List.mem_cons, List.not_mem_nil, or_false, forall_eq_or_imp, forall_eq,
    List.length_append, List.length_cons, List.length_nil, List.length_map,
    List.length_replicate, modeLen, sumLen, octalText_word_length]
  omega

lemma composed_prefixByte (fits : fileName.length ≤ 99) :
  composed fileName type size hdr 345 = 0 :=
  composed_unused (by decide) fun store isStore => Or.inr (composedFields_le fits store isStore)

lemma nameField_mem : (0, fileName ++ [0]) ∈ composedFields fileName type size hdr := by
  simp [composedFields, fieldsOf]

lemma composed_nameEnd (fits : fileName.length ≤ 99) :
  composed fileName type size hdr 99 = 0 := by
  by_cases full : fileName.length = 99
  · have last : (fileName ++ [(0 : Byte)])[99]? = some 0 := by
      rw [List.getElem?_append_right (by omega), full]
      rfl
    exact @composed_inside _ _ _ _ 0 99 _ _ fits nameField_mem last
  refine composed_unused (by decide) ?_
  intro store isStore
  by_cases isName : store = (0, fileName ++ [0])
  · right
    simp only [isName, List.length_append, List.length_cons, List.length_nil]
    omega
  left
  revert store
  simp [composedFields, fieldsOf]

lemma stringIn_composed (noNul : 0 ∉ fileName) (fits : fileName.length ≤ 99) :
  stringIn (composed fileName type size hdr) UstarHeader.name = fileName := by
  have inField : 100 = (fileName.length + 1) + (99 - fileName.length) := by omega
  have isName : rangeOf (composed fileName type size hdr) 0 (fileName.length + 1) =
      fileName ++ [0] :=
    rangeOf_composed fits nameField_mem (by simp)
  have nonzero : ∀ byte ∈ fileName, decide (byte ≠ 0) = true := by
    intro byte isByte
    refine decide_eq_true ?_
    rintro rfl
    exact noNul isByte
  rw [stringIn, UstarHeader.name]
  simp only
  rw [inField, rangeOf_add, isName, List.append_assoc, List.takeWhile_append_of_pos nonzero]
  simp

lemma calculateChksum_composed : calculateChksum (composed fileName type size hdr) =
    calculateChksum (unchecked fileName type size hdr) := by
  have sumLen := octalText_length (calculateChksum_lt (unchecked fileName type size hdr))
  refine congrArg List.sum (List.map_congr_left ?_)
  intro idx _
  split
  · rfl
  next outside =>
    simp only [UstarHeader.chksum] at outside
    rw [composed, composedFields, storeAll_concat, storeAt_outside]
    · rfl
    simp only [List.length_append, List.length_cons, List.length_nil]
    omega

lemma parseOctalField_chksum (fits : fileName.length ≤ 99) :
  parseOctalField (composed fileName type size hdr) UstarHeader.chksum =
    some (calculateChksum (composed fileName type size hdr)) := by
  have bound := calculateChksum_lt (unchecked fileName type size hdr)
  have field : rangeOf (composed fileName type size hdr) 148 8 =
      octalText 7 (calculateChksum (unchecked fileName type size hdr)) ++ [0] :=
    rangeOf_composed fits (by simp [composedFields]) (by simp [octalText_length bound])
  rw [calculateChksum_composed, parseOctalField, UstarHeader.chksum, field]
  exact parseOctalLoop_octalText [] (by decide) bound (bound.le.trans (by decide))

lemma parseOctalField_size (fits : fileName.length ≤ 99) (nonneg : 0 ≤ size)
  (small : size ≤ intMax) :
  parseOctalField (composed fileName type size hdr) UstarHeader.size = some size.toNat := by
  rw [intMax] at small
  have toNat : (BitVec.ofInt 32 size).toNat = size.toNat := by
    rw [BitVec.toNat_ofInt]
    omega
  have field : rangeOf (composed fileName type size hdr) 124 12 =
      octalText 11 (BitVec.ofInt 32 size).toNat ++ [0] := by
    refine rangeOf_composed fits (by simp [composedFields, fieldsOf]) ?_
    rw [List.length_append, octalText_word_length]
    rfl
  rw [parseOctalField, UstarHeader.size, field, toNat]
  refine parseOctalLoop_octalText [] (by decide) ?_ ?_
  · omega
  rw [ulongMax]
  omega

lemma ustarParseHeader_composed (noNul : 0 ∉ fileName) (fits : fileName.length ≤ 99)
  (stripped : stripAntisocialPrefixes fileName = fileName) (isEntry : type ≠ .eof)
  (nonneg : 0 ≤ size) (small : size ≤ intMax) :
  ustarParseHeader (composed fileName type size hdr) =
    .ok ⟨some fileName, type, if type = .regular then size else 0⟩ := by
  have magicField : (257, ['u', 's', 't', 'a', 'r'].map byteOf ++ [0]) ∈
      composedFields fileName type size hdr := by
    simp [composedFields, fieldsOf]
  have versionField : (263, [byteOf '0', byteOf '0']) ∈ composedFields fileName type size hdr := by
    simp [composedFields, fieldsOf]
  have typeField : (156, [type.flag]) ∈ composedFields fileName type size hdr := by
    simp [composedFields, fieldsOf]
  have notZeros : isAllZeros (composed fileName type size hdr) ustarHeaderSize = false := by
    rw [isAllZeros, List.all_eq_false]
    refine ⟨byteOf 'u', List.mem_map.mpr ⟨257, List.mem_range.mpr (by decide), ?_⟩, by decide⟩
    exact @composed_inside _ _ _ _ 257 0 _ _ fits magicField rfl
  have magic : rangeOf (composed fileName type size hdr) UstarHeader.magic.start 6 =
      ['u', 's', 't', 'a', 'r'].map byteOf ++ [0] := rangeOf_composed fits magicField rfl
  have first : composed fileName type size hdr UstarHeader.version.start = byteOf '0' :=
    @composed_inside _ _ _ _ 263 0 _ _ fits versionField rfl
  have second : composed fileName type size hdr (UstarHeader.version.start + 1) = byteOf '0' :=
    @composed_inside _ _ _ _ 263 1 _ _ fits versionField rfl
  have nameEnd : composed fileName type size hdr
      (UstarHeader.name.start + UstarHeader.name.size - 1) = 0 := composed_nameEnd fits
  have noPrefix : composed fileName type size hdr UstarHeader.namePrefix.start = 0 :=
    composed_prefixByte fits
  have flag : composed fileName type size hdr UstarHeader.typeflag.start = type.flag :=
    @composed_inside _ _ _ _ 156 0 _ _ fits typeField rfl
  rw [ustarParseHeader, notZeros]
  simp only [Bool.false_eq_true, if_false, magic, first, second, parseOctalField_chksum fits,
    nameEnd, noPrefix, flag, stringIn_composed noNul fits, stripped, ne_eq, not_true, or_false,
    parseOctalField_size fits nonneg small]
  cases type with
  | regular =>
    rw [if_pos rfl, if_pos rfl, if_neg]
    · rw [Int.toNat_of_nonneg nonneg]
    omega
  | directory => rfl
  | eof => exact absurd rfl isEntry

end Compose

lemma ustarParseHeader_congr {one two : ℕ → Byte} (agree : ∀ idx, idx < 512 → one idx = two idx) :
  ustarParseHeader one = ustarParseHeader two := by
  have ranges : ∀ start cnt, start + cnt ≤ 512 →
      rangeOf one start cnt = rangeOf two start cnt := fun start cnt inHdr =>
    rangeOf_congr fun idx inRange => agree _ (by omega)
  have sums : calculateChksum one = calculateChksum two := by
    refine congrArg List.sum (List.map_congr_left ?_)
    intro idx inHdr
    rw [agree idx (List.mem_range.mp inHdr)]
  simp (disch := decide) only [ustarParseHeader, isAllZeros, parseOctalField, stringIn, ranges,
    agree, sums]
  rfl

/-- A header is composed exactly for names that fit, and is parsed back. -/
theorem ustarMakeHeader_roundTrips (fileName : List Byte) (noNul : 0 ∉ fileName) (type : UstarType)
    (isEntry : type = .regular ∨ type = .directory) (size : ℤ) (nonneg : 0 ≤ size)
    (small : size ≤ intMax) (header : ℕ → Byte) :
    ((stripAntisocialPrefixes fileName).length ≤ 99 → ∃ filled,
      ustarMakeHeader fileName type size header = .ok (true, filled) ∧
        ustarParseHeader filled =
          .ok ⟨some (stripAntisocialPrefixes fileName), type,
            if type = .regular then size else 0⟩) ∧
    (99 < (stripAntisocialPrefixes fileName).length →
      ustarMakeHeader fileName type size header = .ok (false, header)) := by
  have notEof : type ≠ .eof := by
    rcases isEntry with rfl | rfl <;> decide
  refine ⟨fun fits => ?_, fun long => ?_⟩
  · exact ⟨_, ustarMakeHeader_composed notEof fits,
      ustarParseHeader_composed (not_mem_stripAntisocialPrefixes noNul) fits
        (stripAntisocialPrefixes_idem fileName) notEof nonneg small⟩
  rw [ustarMakeHeader, if_neg notEof]
  simp only [if_pos long]

/-- The file named `../a`, with five bytes. -/
theorem ustarMakeHeader_roundTrips_parent :
    ∃ filled, ustarMakeHeader [46, 46, 47, 97] .regular 5 (fun _ => 0) = .ok (true, filled) ∧
      ustarParseHeader filled = .ok ⟨some [97], .regular, 5⟩ := by
  have stripped : stripAntisocialPrefixes [46, 46, 47, 97] = [97] := by
    rw [stripAntisocialPrefixes, stripLoop, dif_pos (by decide),
      stripLoop_of_not_isAntisocial (by decide)]
    decide
  have roundTrips := (ustarMakeHeader_roundTrips [46, 46, 47, 97] (by decide) .regular (Or.inl rfl)
    5 (by decide) (by decide) fun _ => 0).1
  rw [stripped] at roundTrips
  exact roundTrips (by decide)

end Ustar

end Pintos
