import Pintos.Kernel.Stop
import Pintos.Library.Ranges
import Pintos.Library.Words

/-!
# Formatted output

The part of `lib/stdio.c` behind `snprintf`: the interpreter of format strings,
`parse_conversion`, `format_integer` and `format_string`. The characters that the
source passes to an output function one by one are a list here. A call whose arguments
do not match its format string is a fault.
-/

namespace Pintos

def byteOf (character : Char) : Byte := BitVec.ofNat 8 character.toNat

lemma except_bind_eq_ok {Reason Value Result : Type} {first : Except Reason Value}
  {next : Value → Except Reason Result} {res : Result} (returned : (first >>= next) = .ok res) :
  ∃ value, first = .ok value ∧ next value = .ok res := by
  cases first with
  | error reason => cases returned
  | ok value => exact ⟨value, rfl, returned⟩

lemma except_ok_bind {Reason Value Result : Type} (value : Value)
  (next : Value → Except Reason Result) :
  ((Except.ok value : Except Reason Value) >>= next) = next value := rfl

namespace Stdio

/-- An argument of `printf`: four bytes, eight bytes or a string, which may be a null pointer. -/
inductive Argument where
  | word (value : Word)
  | double (value : BitVec 64)
  | string (text : Option (List Byte))

inductive ArgumentType where
  | char
  | short
  | int
  | intmax
  | long
  | longlong
  | ptrdifft
  | sizet
deriving DecidableEq

structure Flags where
  minus : Bool := false
  plus : Bool := false
  space : Bool := false
  pound : Bool := false
  zero : Bool := false
  group : Bool := false

structure PrintfConversion where
  flags : Flags
  width : ℕ
  /-- No precision is -1 in the source. -/
  precision : Option ℕ
  type : ArgumentType

structure IntegerBase where
  base : ℕ
  one_lt : 1 < base
  digits : List Char
  /-- The character behind the zero in front of a number, for base 16 only. -/
  x : Option Char
  group : ℕ

def baseD : IntegerBase :=
  ⟨10, by decide, ['0', '1', '2', '3', '4', '5', '6', '7', '8', '9'], none, 3⟩

def baseO : IntegerBase := ⟨8, by decide, ['0', '1', '2', '3', '4', '5', '6', '7'], none, 3⟩

def baseLowerX : IntegerBase :=
  ⟨16, by decide, ['0', '1', '2', '3', '4', '5', '6', '7', '8', '9', 'a', 'b', 'c', 'd', 'e', 'f'],
    some 'x', 4⟩

def baseUpperX : IntegerBase :=
  ⟨16, by decide, ['0', '1', '2', '3', '4', '5', '6', '7', '8', '9', 'A', 'B', 'C', 'D', 'E', 'F'],
    some 'X', 4⟩

/-- The digits `format_integer` puts into its buffer, least significant first, with a comma
between groups if that is asked for. -/
def digitLoop (grouped : Bool) (base : IntegerBase) (value digitCnt : ℕ) : List Byte :=
  if _ : 0 < value then
    (if grouped ∧ 0 < digitCnt ∧ digitCnt % base.group = 0 then [byteOf ','] else []) ++
      byteOf (base.digits.getD (value % base.base) '0') ::
        digitLoop grouped base (value / base.base) (digitCnt + 1)
  else []
termination_by value
decreasing_by exact Nat.div_lt_self ‹0 < value› base.one_lt

def signOf (flags : Flags) (isSigned negative : Bool) : List Byte :=
  if isSigned then
    if flags.plus then [byteOf (if negative then '-' else '+')]
    else if flags.space then [byteOf (if negative then '-' else ' ')]
    else if negative then [byteOf '-']
    else []
  else []

/-- `format_integer`. The buffer for the digits has 64 characters. -/
def formatInteger (value : ℕ) (isSigned negative : Bool) (base : IntegerBase)
    (conversion : PrintfConversion) : List Byte :=
  let flags := conversion.flags
  let sign := signOf flags isSigned negative
  let x := if flags.pound ∧ 0 < value then base.x else none
  let digits := digitLoop flags.group base value 0
  let precision := conversion.precision.getD 1
  let buf := digits ++ List.replicate (min precision 63 - digits.length) (byteOf '0')
  let buf :=
    if flags.pound ∧ base.base = 8 ∧ buf.getLast? ≠ some (byteOf '0') then buf ++ [byteOf '0']
    else buf
  let padCnt := conversion.width - buf.length - (if x.isSome then 2 else 0) - sign.length
  (if flags.minus ∨ flags.zero then [] else List.replicate padCnt (byteOf ' ')) ++ sign ++
    (x.elim [] fun x => [byteOf '0', byteOf x]) ++
    (if flags.zero then List.replicate padCnt (byteOf '0') else []) ++ buf.reverse ++
    (if flags.minus then List.replicate padCnt (byteOf ' ') else [])

def formatString (string : List Byte) (conversion : PrintfConversion) : List Byte :=
  let padding := List.replicate (conversion.width - string.length) (byteOf ' ')
  (if conversion.flags.minus then [] else padding) ++ string ++
    (if conversion.flags.minus then padding else [])

/-- The flags after one more flag character; `none` for any other character. -/
def setFlag (flags : Flags) (character : Char) : Option Flags :=
  if character = '-' then some { flags with minus := true }
  else if character = '+' then some { flags with plus := true }
  else if character = ' ' then some { flags with space := true }
  else if character = '#' then some { flags with pound := true }
  else if character = '0' then some { flags with zero := true }
  else if character = Char.ofNat 39 then some { flags with group := true }
  else none

def parseFlags : Flags → List Char → Flags × List Char
  | flags, character :: format =>
    match setFlag flags character with
    | some flags => parseFlags flags format
    | none => (flags, character :: format)
  | flags, [] => (flags, [])

def parseDigits : ℕ → List Char → ℕ × List Char
  | value, character :: format =>
    if character.isDigit then parseDigits (value * 10 + (character.toNat - 48)) format
    else (value, character :: format)
  | value, [] => (value, [])

def nextWord : List Argument → Except Stop (Word × List Argument)
  | .word value :: args => .ok (value, args)
  | _ => .error .fault

def nextDouble : List Argument → Except Stop (BitVec 64 × List Argument)
  | .double value :: args => .ok (value, args)
  | _ => .error .fault

def nextString : List Argument → Except Stop (Option (List Byte) × List Argument)
  | .string text :: args => .ok (text, args)
  | _ => .error .fault

def parseWidth (flags : Flags) : List Char → List Argument →
    Except Stop (Flags × ℕ × List Char × List Argument)
  | '*' :: format, args => do
    let (width, args) ← nextWord args
    if width.toInt < 0 then pure ({ flags with minus := true }, width.toInt.natAbs, format, args)
    else pure (flags, width.toNat, format, args)
  | format, args =>
    let (width, format) := parseDigits 0 format
    pure (flags, width, format, args)

def parsePrecision : List Char → List Argument →
    Except Stop (Option ℕ × List Char × List Argument)
  | '.' :: '*' :: format, args => do
    let (precision, args) ← nextWord args
    pure (if precision.toInt < 0 then none else some precision.toNat, format, args)
  | '.' :: format, args =>
    let (precision, format) := parseDigits 0 format
    pure (some precision, format, args)
  | format, args => pure (none, format, args)

def parseType : List Char → ArgumentType × List Char
  | 'h' :: 'h' :: format => (.char, format)
  | 'h' :: format => (.short, format)
  | 'j' :: format => (.intmax, format)
  | 'l' :: 'l' :: format => (.longlong, format)
  | 'l' :: format => (.long, format)
  | 't' :: format => (.ptrdifft, format)
  | 'z' :: format => (.sizet, format)
  | format => (.int, format)

def parseConversion (format : List Char) (args : List Argument) :
    Except Stop (PrintfConversion × List Char × List Argument) := do
  let (flags, format) := parseFlags {} format
  let flags := if flags.minus then { flags with zero := false } else flags
  let flags := if flags.plus then { flags with space := false } else flags
  let (flags, width, format, args) ← parseWidth flags format args
  let (precision, format, args) ← parsePrecision format args
  let flags := if precision.isSome then { flags with zero := false } else flags
  let (type, format) := parseType format
  pure ({ flags := flags, width := width, precision := precision, type := type }, format, args)

def signedArgument (args : List Argument) : ArgumentType → Except Stop (ℤ × List Argument)
  | .char => do
    let (value, args) ← nextWord args
    pure ((value.setWidth 8).toInt, args)
  | .short => do
    let (value, args) ← nextWord args
    pure ((value.setWidth 16).toInt, args)
  | .intmax | .longlong => do
    let (value, args) ← nextDouble args
    pure (value.toInt, args)
  | .int | .long | .ptrdifft | .sizet => do
    let (value, args) ← nextWord args
    pure (value.toInt, args)

def unsignedArgument (args : List Argument) : ArgumentType → Except Stop (ℕ × List Argument)
  | .char => do
    let (value, args) ← nextWord args
    pure ((value.setWidth 8).toNat, args)
  | .short => do
    let (value, args) ← nextWord args
    pure ((value.setWidth 16).toNat, args)
  | .intmax | .longlong => do
    let (value, args) ← nextDouble args
    pure (value.toNat, args)
  | .int | .long | .ptrdifft | .sizet => do
    let (value, args) ← nextWord args
    pure (value.toNat, args)

def unsignedBase : Char → Option IntegerBase
  | 'o' => some baseO
  | 'u' => some baseD
  | 'x' => some baseLowerX
  | 'X' => some baseUpperX
  | _ => none

def noConversion (character : Char) (reason : List Char) : List Byte :=
  (['<', '<', 'n', 'o', ' ', '%', character, ' '] ++ reason ++ ['>', '>']).map byteOf

def convert (conversion : PrintfConversion) (character : Char) (args : List Argument) :
    Except Stop (List Byte × List Argument) :=
  if character = 'd' ∨ character = 'i' then do
    let (value, args) ← signedArgument args conversion.type
    pure (formatInteger value.natAbs true (value < 0) baseD conversion, args)
  else if let some base := unsignedBase character then do
    let (value, args) ← unsignedArgument args conversion.type
    pure (formatInteger value false false base conversion, args)
  else if character = 'c' then do
    let (value, args) ← nextWord args
    pure (formatString [value.setWidth 8] conversion, args)
  else if character = 's' then do
    let (text, args) ← nextString args
    let text := text.getD (['(', 'n', 'u', 'l', 'l', ')'].map byteOf)
    pure (formatString (conversion.precision.elim text text.take) conversion, args)
  else if character = 'p' then do
    let (value, args) ← nextWord args
    pure (formatInteger value.toNat false false baseLowerX
      { conversion with flags := { pound := true } }, args)
  else if character ∈ ['f', 'e', 'E', 'g', 'G', 'n'] then
    pure (noConversion character ['i', 'n', ' ', 'k', 'e', 'r', 'n', 'e', 'l'], args)
  else
    pure (noConversion character ['c', 'o', 'n', 'v', 'e', 'r', 's', 'i', 'o', 'n'], args)

section Lengths

variable {flags : Flags} {format rest : List Char} {args others : List Argument}

lemma parseFlags_length (flags : Flags) (format : List Char) :
  (parseFlags flags format).2.length ≤ format.length := by
  induction format generalizing flags with
  | nil => simp [parseFlags]
  | cons character format ih =>
    rw [parseFlags]
    split
    · exact (ih _).trans (Nat.le_succ _)
    · exact le_rfl

lemma parseDigits_length (val : ℕ) (format : List Char) :
  (parseDigits val format).2.length ≤ format.length := by
  induction format generalizing val with
  | nil => simp [parseDigits]
  | cons character format ih =>
    rw [parseDigits]
    split
    · exact (ih _).trans (Nat.le_succ _)
    · exact le_rfl

lemma parseWidth_length {res : Flags} {width : ℕ}
  (parsed : parseWidth flags format args = .ok (res, width, rest, others)) :
  rest.length ≤ format.length := by
  rw [parseWidth.eq_def] at parsed
  split at parsed
  · rcases except_bind_eq_ok parsed with ⟨⟨_, _⟩, _, parsed⟩
    simp only at parsed
    split at parsed
    all_goals
      cases parsed
      exact Nat.le_succ _
  cases parsed
  exact parseDigits_length 0 format

lemma parsePrecision_length {precision : Option ℕ}
  (parsed : parsePrecision format args = .ok (precision, rest, others)) :
  rest.length ≤ format.length := by
  rw [parsePrecision.eq_def] at parsed
  split at parsed
  · rcases except_bind_eq_ok parsed with ⟨_, _, parsed⟩
    cases parsed
    simp only [List.length_cons]
    omega
  · cases parsed
    exact (parseDigits_length 0 _).trans (Nat.le_succ _)
  cases parsed
  exact le_rfl

lemma parseType_length (format : List Char) : (parseType format).2.length ≤ format.length := by
  rw [parseType.eq_def]
  split
  all_goals
    simp only [List.length_cons]
    omega

lemma parseConversion_length {conversion : PrintfConversion}
  (parsed : parseConversion format args = .ok (conversion, rest, others)) :
  rest.length ≤ format.length := by
  rcases except_bind_eq_ok parsed with ⟨⟨_, _, afterWidth, _⟩, widthParsed, parsed⟩
  rcases except_bind_eq_ok parsed with ⟨⟨_, afterPrecision, _⟩, precisionParsed, parsed⟩
  cases parsed
  calc (parseType afterPrecision).2.length
    _ ≤ afterPrecision.length := parseType_length afterPrecision
    _ ≤ afterWidth.length := parsePrecision_length precisionParsed
    _ ≤ (parseFlags {} format).2.length := parseWidth_length widthParsed
    _ ≤ format.length := parseFlags_length {} format

end Lengths

/-- `__vprintf`. A format that ends inside a conversion is read past its end by the source. -/
def vprintf (format : List Char) (args : List Argument) : Except Stop (List Byte) :=
  match format with
  | [] => .ok []
  | '%' :: '%' :: format => do
    let output ← vprintf format args
    pure (byteOf '%' :: output)
  | '%' :: format =>
    match _ : parseConversion format args with
    | .ok (conversion, character :: rest, args) => do
      let (converted, args) ← convert conversion character args
      let output ← vprintf rest args
      pure (converted ++ output)
    | .ok (_, [], _) => .error .fault
    | .error reason => .error reason
  | character :: format => do
    let output ← vprintf format args
    pure (byteOf character :: output)
termination_by format.length
decreasing_by
  · simp only [List.length_cons]
    omega
  · have shorter := parseConversion_length ‹_›
    simp only [List.length_cons] at shorter ⊢
    omega
  · exact Nat.lt_succ_self _

def vsnprintf (memory : ℕ → Byte) (dst bufSize : ℕ) (format : List Char)
    (args : List Argument) : Except Stop (ℕ → Byte) := do
  let output ← vprintf format args
  pure (if 0 < bufSize then storeAt memory dst (output.take (bufSize - 1) ++ [0]) else memory)

def snprintf (memory : ℕ → Byte) (dst bufSize : ℕ) (format : List Char) (args : List Argument) :
    Except Stop (ℕ → Byte) :=
  vsnprintf memory dst bufSize format args

end Stdio

end Pintos
