import Mathlib.Data.Int.Basic
import FuryBrowser.PathTree

/-!
# The agent's disk

The agent keeps a profile in a directory and two small files beside it. Its
operations run on one disk, may fail with the message the operator sees, and
keep on the disk whatever they wrote before failing.

Text is read the way the standard library reads it: as UTF-8, trimmed of
Unicode white space, and parsed as a signed 32-bit number.
-/

namespace FuryBrowser.AgentDisk

open PathTree

/-- File content. -/
abbrev Bytes := List UInt8

/-- A path from the root of the disk. -/
abbrev Path := List String

/-- The agent's disk. -/
abbrev Disk := Tree String Bytes

/-- What an operation of the agent fails with. -/
inductive AgentError where
  /-- The operating system refused a file operation. -/
  | io
  /-- A message in plain words. -/
  | message (text : String)
  /-- A message with the code the shell translates it by. -/
  | coded (code text : String)
  deriving DecidableEq, Repr

/-- An operation on the disk: it may fail, and keeps what it wrote. -/
abbrev DiskOp := EStateM AgentError Disk

/-- Ask the file system for something it may refuse. -/
def io (f : Disk → Option Disk) : DiskOp Unit := fun disk =>
  match f disk with
  | some disk' => .ok () disk'
  | none => .error .io disk

/-- Ask for something whose refusal is ignored. -/
def tryIo (f : Disk → Option Disk) : DiskOp Unit := fun disk =>
  .ok () ((f disk).getD disk)

/-- Whether an operation goes through on a disk. -/
def succeeds {α : Type} (x : DiskOp α) (disk : Disk) : Bool :=
  match x disk with
  | .ok _ _ => true
  | .error _ _ => false

section Results

variable {α β : Type} {disk disk' : Disk}

/-- A sequence succeeds exactly when its first part does and then its second. -/
theorem bind_ok {x : DiskOp α} {f : α → DiskOp β} {b : β} :
    (x >>= f) disk = .ok b disk' ↔ ∃ a mid, x disk = .ok a mid ∧ f a mid = .ok b disk' := by
  change EStateM.bind x f disk = _ ↔ _
  unfold EStateM.bind
  cases hx : x disk with
  | ok a mid => simp
  | error e mid => simp

@[simp] theorem pure_ok {a b : α} :
    (pure a : DiskOp α) disk = .ok b disk' ↔ a = b ∧ disk = disk' := by
  change EStateM.Result.ok a disk = _ ↔ _
  simp

@[simp] theorem throw_ok {e : AgentError} {b : α} :
    (throw e : DiskOp α) disk = .ok b disk' ↔ False := by
  change EStateM.Result.error e disk = _ ↔ _
  simp

@[simp] theorem io_ok {f : Disk → Option Disk} {u : Unit} :
    io f disk = .ok u disk' ↔ f disk = some disk' := by
  unfold io
  cases f disk with
  | none => simp
  | some d => simp

@[simp] theorem tryIo_ok {f : Disk → Option Disk} {u : Unit} :
    tryIo f disk = .ok u disk' ↔ (f disk).getD disk = disk' := by
  simp [tryIo]

theorem succeeds_iff {x : DiskOp α} :
    succeeds x disk = true ↔ ∃ a disk', x disk = .ok a disk' := by
  unfold succeeds
  cases x disk <;> simp

end Results

section Text

/-- `String::from_utf8` and `fs::read_to_string` on a file's content. -/
def fromUtf8 (content : Bytes) : Option String :=
  String.fromUTF8? ⟨content.toArray⟩

/-- The bytes of a text. -/
def utf8 (text : String) : Bytes := text.toUTF8.data.toList

/-- The Unicode property `White_Space`, which `str::trim` removes. -/
def isWhiteSpace (c : Char) : Bool :=
  (9 ≤ c.toNat && c.toNat ≤ 13) || c.toNat = 0x20 || c.toNat = 0x85 || c.toNat = 0xA0 ||
    c.toNat = 0x1680 || (0x2000 ≤ c.toNat && c.toNat ≤ 0x200A) || c.toNat = 0x2028 ||
    c.toNat = 0x2029 || c.toNat = 0x202F || c.toNat = 0x205F || c.toNat = 0x3000

/-- `str::trim`. -/
def trim (text : String) : String :=
  .ofList ((text.toList.dropWhile isWhiteSpace).reverse.dropWhile isWhiteSpace).reverse

/-- The number one or more decimal digits spell. -/
def decimalValue (digits : List Char) : Option ℕ :=
  if digits ≠ [] ∧ digits.all Char.isDigit then some (Nat.ofDigitChars 10 digits 0) else none

/-- The sign a number is written with, and its digits. -/
def splitSign : List Char → ℤ × List Char
  | '-' :: digits => (-1, digits)
  | '+' :: digits => (1, digits)
  | digits => (1, digits)

/-- `str::parse::<i32>`: an optional sign, at least one digit, and no overflow. -/
def parseI32 (text : String) : Option ℤ :=
  let (sign, digits) := splitSign text.toList
  match decimalValue digits with
  | none => none
  | some n =>
    let value := sign * n
    if -2147483648 ≤ value ∧ value ≤ 2147483647 then some value else none

/-- The content of a text file, when it is one. -/
def readToString (disk : Disk) (p : Path) : Option String :=
  (fileAt disk p).bind fromUtf8

/-- A text's bytes read back as the text. -/
theorem fromUtf8_utf8 (text : String) : fromUtf8 (utf8 text) = some text := by
  have hbytes : (⟨(utf8 text).toArray⟩ : ByteArray) = text.toUTF8 := rfl
  unfold fromUtf8
  have hvalid : text.toUTF8.IsValidUTF8 := text.isValidUTF8
  rw [hbytes, String.fromUTF8?, dif_pos hvalid]
  rfl

/-- Text with no white space at its ends is what `trim` leaves of it. -/
theorem trim_of_forall {text : String} (h : ∀ c ∈ text.toList, isWhiteSpace c = false) :
    trim text = text := by
  have hkeep (l : List Char) (hl : ∀ c ∈ l, isWhiteSpace c = false) :
      l.dropWhile isWhiteSpace = l := by
    cases l with
    | nil => rfl
    | cons c rest => simp [List.dropWhile, hl c List.mem_cons_self]
  unfold trim
  rw [hkeep _ h, hkeep _ (by simpa using h)]
  simp

/-- The digits of a number are not white space. -/
theorem isWhiteSpace_of_isDigit {c : Char} (h : c.isDigit) : isWhiteSpace c = false := by
  have hrange : 48 ≤ c.toNat ∧ c.toNat ≤ 57 := by
    simpa [Char.isDigit, UInt32.le_iff_toNat_le] using h
  simp [isWhiteSpace]
  omega

theorem digits_of_toDigits {n : ℕ} {c : Char} (hc : c ∈ Nat.toDigits 10 n) : c.isDigit :=
  Nat.isDigit_of_mem_toDigits (by decide) (by decide) hc

/-- The digits printed for a number spell it. -/
theorem decimalValue_toDigits (n : ℕ) : decimalValue (Nat.toDigits 10 n) = some n := by
  have hall : (Nat.toDigits 10 n).all Char.isDigit = true :=
    List.all_eq_true.mpr fun _ hc => digits_of_toDigits hc
  rw [decimalValue, if_pos ⟨Nat.toDigits_ne_nil, hall⟩, Nat.ofDigitChars_ten_toDigits]

/-- A number written with digits alone has no sign. -/
theorem splitSign_digits {digits : List Char} (h : ∀ c ∈ digits, c.isDigit) :
    splitSign digits = (1, digits) := by
  unfold splitSign
  split
  · exact absurd (h '-' List.mem_cons_self) (by decide)
  · exact absurd (h '+' List.mem_cons_self) (by decide)
  · rfl

/-- A number in range reads back from its text. -/
theorem parseI32_toString {v : ℤ} (hlo : -2147483648 ≤ v) (hhi : v ≤ 2147483647) :
    parseI32 (trim (toString v)) = some v := by
  have hspace {n : ℕ} {c : Char} (hc : c ∈ Nat.toDigits 10 n) : isWhiteSpace c = false :=
    isWhiteSpace_of_isDigit (digits_of_toDigits hc)
  rw [Int.toString_eq_repr, Int.repr_eq_if]
  split_ifs with hv
  · rw [trim_of_forall (by rw [Nat.toList_repr]; exact fun c hc => hspace hc)]
    unfold parseI32
    rw [Nat.toList_repr, splitSign_digits fun _ hc => digits_of_toDigits hc]
    simp only [decimalValue_toDigits]
    have hval : (1 : ℤ) * (v.toNat : ℤ) = v := by omega
    rw [hval, if_pos ⟨hlo, hhi⟩]
  · have htext : ("-" ++ (-v).toNat.repr).toList = '-' :: Nat.toDigits 10 (-v).toNat := by
      rw [String.toList_append, Nat.toList_repr]
      rfl
    rw [trim_of_forall]
    · unfold parseI32
      rw [htext]
      simp only [splitSign, decimalValue_toDigits]
      have hval : (-1 : ℤ) * ((-v).toNat : ℤ) = v := by omega
      rw [hval, if_pos ⟨hlo, hhi⟩]
    · rw [htext]
      intro c hc
      rcases List.mem_cons.mp hc with rfl | hc
      · decide
      · exact hspace hc

end Text

/-- A profile's id: a UUID, so its text has no dot to take an extension off. -/
structure ProfileId where
  /-- The id as it is written in paths. -/
  text : String
  /-- No extension can be read off the id. -/
  noDot : '.' ∉ text.toList

/-- `paths::profile_dir`. -/
def profileDir (dataDir : Path) (id : ProfileId) : Path :=
  dataDir ++ ["profiles", id.text]

/-- `profile_dir(id).with_extension(ext)`: a name beside the directory. -/
def besideProfileDir (dataDir : Path) (id : ProfileId) (ext : String) : Path :=
  dataDir ++ ["profiles", id.text ++ "." ++ ext]

/-- A name beside the directory is not inside it. -/
theorem besideProfileDir_outside (dataDir : Path) (id : ProfileId) (ext : String) :
    ¬profileDir dataDir id <+: besideProfileDir dataDir id ext := by
  unfold profileDir besideProfileDir
  rintro ⟨rest, hrest⟩
  have hlen := congrArg List.length hrest
  have hnil : rest = [] := by
    apply List.eq_nil_of_length_eq_zero
    simp only [List.length_append, List.length_cons, List.length_nil] at hlen
    omega
  simp only [hnil, List.append_nil, List.append_cancel_left_eq, List.cons.injEq, and_true,
    true_and] at hrest
  have := congrArg String.length hrest
  simp only [String.length_append] at this
  have hdot : ".".length = 1 := by decide
  omega

end FuryBrowser.AgentDisk
