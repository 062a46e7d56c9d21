import Mathlib.Data.List.Basic
import Mathlib.Tactic.Common

/-!
# `Base.Base64` — the Base64 encoding of byte strings

The encoder takes the bytes three at a time and pads the last group. The decoder is the lenient one of Python: it skips
what does not belong to the alphabet, and stops where a group is complete by its padding.
-/

namespace Base64

abbrev Bytes := List UInt8

/-! ## The alphabet -/

def alphabet : List Char := "ABCDEFGHIJKLMNOPQRSTUVWXYZabcdefghijklmnopqrstuvwxyz0123456789+/".toList

theorem alphabet_eq : alphabet =
    ['A', 'B', 'C', 'D', 'E', 'F', 'G', 'H', 'I', 'J', 'K', 'L', 'M', 'N', 'O', 'P', 'Q', 'R', 'S', 'T', 'U', 'V', 'W', 'X', 'Y', 'Z',
     'a', 'b', 'c', 'd', 'e', 'f', 'g', 'h', 'i', 'j', 'k', 'l', 'm', 'n', 'o', 'p', 'q', 'r', 's', 't', 'u', 'v', 'w', 'x', 'y', 'z',
     '0', '1', '2', '3', '4', '5', '6', '7', '8', '9', '+', '/'] :=
  String.toList_ofList

/-- The character of a number below 64. -/
def symbol (n : Nat) : Char := alphabet.getD n '='

/-- The number of a character of the alphabet. -/
def digit? (c : Char) : Option Nat := alphabet.idxOf? c

theorem digit?_symbol {n : Nat} (hn : n < 64) : digit? (symbol n) = some n := by
  have hall : ∀ k : Fin 64, digit? (symbol k) = some k.val := by
    unfold digit? symbol
    rw [alphabet_eq]
    decide +kernel
  exact hall ⟨n, hn⟩

theorem symbol_mem {n : Nat} (hn : n < 64) : symbol n ∈ alphabet := by
  have hlength : alphabet.length = 64 := by
    rw [alphabet_eq]
    rfl
  rw [symbol, List.getD_eq_getElem?_getD, List.getElem?_eq_getElem (hlength ▸ hn), Option.getD_some]
  exact List.getElem_mem _

theorem alphabet_plain {c : Char} (hc : c ∈ alphabet) : c.toNat < 128 ∧ c ≠ '=' ∧ c ≠ ':' := by
  have hall : alphabet.all (fun c => c.toNat < 128 && c ≠ '=' && c ≠ ':') = true := by
    rw [alphabet_eq]
    decide
  have hplain := List.all_eq_true.mp hall c hc
  simp only [Bool.and_eq_true, decide_eq_true_eq] at hplain
  exact ⟨hplain.1.1, hplain.1.2, hplain.2⟩

theorem symbol_ne_pad {n : Nat} (hn : n < 64) : symbol n ≠ '=' := (alphabet_plain (symbol_mem hn)).2.1

/-! ## The two directions -/

/-- Four characters for every three bytes, the last group padded. -/
def encode : Bytes → List Char
  | [] => []
  | [a] => [symbol (a.toNat / 4), symbol (a.toNat % 4 * 16), '=', '=']
  | [a, b] =>
    [symbol (a.toNat / 4), symbol (a.toNat % 4 * 16 + b.toNat / 16), symbol (b.toNat % 16 * 4), '=']
  | a :: b :: c :: rest =>
    symbol (a.toNat / 4) :: symbol (a.toNat % 4 * 16 + b.toNat / 16) ::
      symbol (b.toNat % 16 * 4 + c.toNat / 64) :: symbol (c.toNat % 64) :: encode rest

/-- Where the decoder stands: the place in the group of four, the bits that are left over, the padding seen since the
last character of the alphabet, and the bytes so far. -/
structure Scan where
  quad : Nat := 0
  left : Nat := 0
  pads : Nat := 0
  out : Bytes := []

/-- What a character of the alphabet does. -/
def Scan.take (s : Scan) (n : Nat) : Scan :=
  match s.quad with
  | 0 => { s with quad := 1, left := n, pads := 0 }
  | 1 => { quad := 2, left := n % 16, pads := 0, out := s.out ++ [.ofNat (s.left * 4 + n / 16)] }
  | 2 => { quad := 3, left := n % 4, pads := 0, out := s.out ++ [.ofNat (s.left * 16 + n / 4)] }
  | _ => { quad := 0, left := 0, pads := 0, out := s.out ++ [.ofNat (s.left * 64 + n)] }

/-- The decoder from one of its states, with the texts of `binascii.Error`. -/
def scan (s : Scan) : List Char → Except String Bytes
  | [] =>
    if s.quad = 0 then .ok s.out
    else if s.quad = 1 then
      .error ("Invalid base64-encoded string: number of data characters (" ++ toString (s.out.length / 3 * 4 + 1)
        ++ ") cannot be 1 more than a multiple of 4")
    else .error "Incorrect padding"
  | c :: cs =>
    if c = '=' then
      -- the padding counts only where a byte is begun, and ends the text once it completes the group
      if 2 ≤ s.quad then
        if 4 ≤ s.quad + (s.pads + 1) then .ok s.out else scan { s with pads := s.pads + 1 } cs
      else scan s cs
    else
      match digit? c with
      | none => scan s cs
      | some n => scan (s.take n) cs

/-- `base64.b64decode` of a text. -/
def decode (text : List Char) : Except String Bytes :=
  if text.all (fun c => c.toNat < 128) then scan {} text
  else .error "string argument should contain only ASCII characters"

/-! ## The round trip -/

theorem scan_symbol (s : Scan) {n : Nat} (hn : n < 64) (cs : List Char) :
    scan s (symbol n :: cs) = scan (s.take n) cs := by
  rw [scan, if_neg (symbol_ne_pad hn), digit?_symbol hn]

theorem ofNat_eq {a : UInt8} {n : Nat} (hn : n = a.toNat) : UInt8.ofNat n = a := by
  rw [hn]
  exact UInt8.ofNat_toNat

theorem scan_encode (bs out : Bytes) : scan { out := out } (encode bs) = .ok (out ++ bs) := by
  fun_induction encode bs generalizing out with
  | case1 =>
    rw [List.append_nil]
    rfl
  | case2 a =>
    have ha := a.toNat_lt
    rw [scan_symbol _ (by omega), scan_symbol _ (by omega)]
    have hbyte : UInt8.ofNat (a.toNat / 4 * 4 + a.toNat % 4 * 16 / 16) = a := ofNat_eq (by omega)
    show Except.ok (out ++ [UInt8.ofNat (a.toNat / 4 * 4 + a.toNat % 4 * 16 / 16)]) = _
    rw [hbyte]
  | case3 a b =>
    have ha := a.toNat_lt
    have hb := b.toNat_lt
    rw [scan_symbol _ (by omega), scan_symbol _ (by omega), scan_symbol _ (by omega)]
    have hfirst : UInt8.ofNat (a.toNat / 4 * 4 + (a.toNat % 4 * 16 + b.toNat / 16) / 16) = a :=
      ofNat_eq (by omega)
    have hsecond : UInt8.ofNat ((a.toNat % 4 * 16 + b.toNat / 16) % 16 * 16 + b.toNat % 16 * 4 / 4) = b :=
      ofNat_eq (by omega)
    show Except.ok (out ++ [UInt8.ofNat (a.toNat / 4 * 4 + (a.toNat % 4 * 16 + b.toNat / 16) / 16)] ++
      [UInt8.ofNat ((a.toNat % 4 * 16 + b.toNat / 16) % 16 * 16 + b.toNat % 16 * 4 / 4)]) = _
    rw [hfirst, hsecond, List.append_assoc]
    rfl
  | case4 a b c rest ih =>
    have ha := a.toNat_lt
    have hb := b.toNat_lt
    have hc := c.toNat_lt
    rw [scan_symbol _ (by omega), scan_symbol _ (by omega), scan_symbol _ (by omega), scan_symbol _ (by omega)]
    have hfirst : UInt8.ofNat (a.toNat / 4 * 4 + (a.toNat % 4 * 16 + b.toNat / 16) / 16) = a :=
      ofNat_eq (by omega)
    have hsecond : UInt8.ofNat ((a.toNat % 4 * 16 + b.toNat / 16) % 16 * 16 +
        (b.toNat % 16 * 4 + c.toNat / 64) / 4) = b := ofNat_eq (by omega)
    have hthird : UInt8.ofNat ((b.toNat % 16 * 4 + c.toNat / 64) % 4 * 64 + c.toNat % 64) = c :=
      ofNat_eq (by omega)
    show scan { out := out ++ [UInt8.ofNat (a.toNat / 4 * 4 + (a.toNat % 4 * 16 + b.toNat / 16) / 16)] ++
      [UInt8.ofNat ((a.toNat % 4 * 16 + b.toNat / 16) % 16 * 16 + (b.toNat % 16 * 4 + c.toNat / 64) / 4)] ++
      [UInt8.ofNat ((b.toNat % 16 * 4 + c.toNat / 64) % 4 * 64 + c.toNat % 64)] } (encode rest) = _
    rw [hfirst, hsecond, hthird, ih]
    simp only [List.append_assoc, List.cons_append, List.nil_append]

theorem mem_encode {bs : Bytes} {c : Char} (hc : c ∈ encode bs) : c ∈ alphabet ∨ c = '=' := by
  fun_induction encode bs with
  | case1 => exact absurd hc List.not_mem_nil
  | case2 a =>
    have ha := a.toNat_lt
    simp only [List.mem_cons, List.not_mem_nil, or_false] at hc
    rcases hc with rfl | rfl | rfl | rfl
    · exact .inl (symbol_mem (by omega))
    · exact .inl (symbol_mem (by omega))
    · exact .inr rfl
    · exact .inr rfl
  | case3 a b =>
    have ha := a.toNat_lt
    have hb := b.toNat_lt
    simp only [List.mem_cons, List.not_mem_nil, or_false] at hc
    rcases hc with rfl | rfl | rfl | rfl
    · exact .inl (symbol_mem (by omega))
    · exact .inl (symbol_mem (by omega))
    · exact .inl (symbol_mem (by omega))
    · exact .inr rfl
  | case4 a b c' rest ih =>
    have ha := a.toNat_lt
    have hb := b.toNat_lt
    have hc' := c'.toNat_lt
    simp only [List.mem_cons] at hc
    rcases hc with rfl | rfl | rfl | rfl | hrest
    · exact .inl (symbol_mem (by omega))
    · exact .inl (symbol_mem (by omega))
    · exact .inl (symbol_mem (by omega))
    · exact .inl (symbol_mem (by omega))
    · exact ih hrest

theorem encode_ascii {bs : Bytes} {c : Char} (hc : c ∈ encode bs) : c.toNat < 128 ∧ c ≠ ':' := by
  rcases mem_encode hc with hmem | rfl
  · exact ⟨(alphabet_plain hmem).1, (alphabet_plain hmem).2.2⟩
  · decide

/-- **The round trip.** -/
theorem decode_encode (bs : Bytes) : decode (encode bs) = .ok bs := by
  rw [decode, if_pos, scan_encode, List.nil_append]
  exact List.all_eq_true.mpr (fun c hc => decide_eq_true (encode_ascii hc).1)

end Base64
