-- What a fingerprint is made of. Every draw has eight bytes, the digits of its number, so
-- the bytes of a list of draws tell the number of each; and the text of a hash tells
-- every byte of it. So whether two lists have one fingerprint is a question about the
-- hash alone.
import SeededStreams.Draw.Digest
import SeededStreams.Proofs.Word.Lossless

namespace SeededStreams

/-! ## Bytes as text -/

/-- The digits of hexadecimal, in lowercase. -/
def hexDigits : List Char := "0123456789abcdef".toList

/-- Two lowercase digits for each byte, that of its upper half first. -/
structure SpellsHex (bytes : List UInt8) (text : List Char) : Prop where
  length_eq : text.length = 2 * bytes.length
  upper : ∀ (n : Nat) (b : UInt8), bytes[n]? = some b →
    text[2 * n]? = hexDigits[b.toNat / 16]?
  lower : ∀ (n : Nat) (b : UInt8), bytes[n]? = some b →
    text[2 * n + 1]? = hexDigits[b.toNat % 16]?

theorem hexDigits_getElem? (d : Fin 16) : hexDigits[d.val]? = some (Nat.digitChar d) := by
  revert d
  decide

theorem hexDigits_inj {c d : Nat} (hc : c < 16) (hd : d < 16)
    (h : hexDigits[c]? = hexDigits[d]?) : c = d := by
  have hnodup : ∀ c d : Fin 16, hexDigits[c.val]? = hexDigits[d.val]? → c = d := by decide
  exact congrArg Fin.val (hnodup ⟨c, hc⟩ ⟨d, hd⟩ h)

theorem hexText_cons (b : UInt8) (bytes : List UInt8) :
    hexText (b :: bytes) =
      Nat.digitChar (b.toNat / 16) :: Nat.digitChar (b.toNat % 16) :: hexText bytes := rfl

theorem hexText_spells (bytes : List UInt8) : SpellsHex bytes (hexText bytes) := by
  induction bytes with
  | nil => exact ⟨rfl, nofun, nofun⟩
  | cons b bytes ih =>
    have hb := b.toNat_lt
    have hupper := hexDigits_getElem? ⟨b.toNat / 16, by omega⟩
    have hlower := hexDigits_getElem? ⟨b.toNat % 16, by omega⟩
    rw [hexText_cons]
    refine ⟨?_, ?_, ?_⟩
    · simp only [List.length_cons, ih.length_eq]
      omega
    · intro n c hc
      cases n with
      | zero =>
        cases hc
        exact hupper.symm
      | succ n => exact ih.upper n c hc
    · intro n c hc
      cases n with
      | zero =>
        cases hc
        exact hlower.symm
      | succ n => exact ih.lower n c hc

/-- A text spells one list of bytes at most. -/
theorem SpellsHex.unique {bytes bytes' : List UInt8} {text : List Char}
    (h : SpellsHex bytes text) (h' : SpellsHex bytes' text) : bytes = bytes' := by
  have hlength : bytes.length = bytes'.length := by
    have := h.length_eq
    have := h'.length_eq
    omega
  apply List.ext_getElem hlength
  intro n hn hn'
  have hb := bytes[n].toNat_lt
  have hb' := bytes'[n].toNat_lt
  have hget := List.getElem?_eq_getElem hn
  have hget' := List.getElem?_eq_getElem hn'
  have hupper : bytes[n].toNat / 16 = bytes'[n].toNat / 16 :=
    hexDigits_inj (by omega) (by omega) ((h.upper n _ hget).symm.trans (h'.upper n _ hget'))
  have hlower : bytes[n].toNat % 16 = bytes'[n].toNat % 16 :=
    hexDigits_inj (by omega) (by omega) ((h.lower n _ hget).symm.trans (h'.lower n _ hget'))
  apply UInt8.toNat_inj.mp
  omega

theorem hexText_inj {bytes bytes' : List UInt8} :
    hexText bytes = hexText bytes' ↔ bytes = bytes' := by
  constructor
  · intro h
    have hspells := hexText_spells bytes
    rw [h] at hspells
    exact hspells.unique (hexText_spells bytes')
  · rintro rfl
    rfl

namespace Draw

/-! ## The bytes of a draw -/

/-- The number whose digits are the bytes of a draw: a word itself, a signed integer in
two's complement, and the bits of a real. -/
def code : Draw → Nat
  | word w => w.toNat
  | signed v => (v.toInt % UInt64.size).toNat
  | real x => x.bits.toNat

theorem toNat_twosComplement (v : Int64) : v.toUInt64.toNat = (v.toInt % UInt64.size).toNat := by
  have hvalue : v.toInt = Int.bmod v.toUInt64.toNat UInt64.size := by
    rw [← Int64.toInt_toBitVec, BitVec.toInt_eq_toNat_bmod]
    rfl
  have hlt : (v.toUInt64.toNat : Int) < UInt64.size := by
    exact_mod_cast v.toUInt64.toNat_lt_size
  rw [hvalue, Int.bmod_emod, Int.emod_eq_of_lt (Int.natCast_nonneg _) hlt, Int.toNat_natCast]

theorem toNat_bits (d : Draw) : d.bits.toNat = d.code := by
  cases d with
  | signed v => exact toNat_twosComplement v
  | _ => rfl

theorem ofDigits_bytes (d : Draw) : Nat.ofDigits 256 (d.bytes.map UInt8.toNat) = d.code := by
  rw [← toNat_bits, bytes, Word.ofDigits_bytes]

theorem bytes_eq_iff (a b : Draw) : a.bytes = b.bytes ↔ a.bits = b.bits := Word.bytes_inj

/-! ## The bytes of a list of draws -/

@[simp] theorem length_bytes (d : Draw) : d.bytes.length = 8 := rfl

theorem map_length_bytes (draws : List Draw) :
    (draws.map bytes).map List.length = List.replicate draws.length 8 := by
  rw [List.map_map, ← List.map_const']
  rfl

@[simp] theorem length_streamBytes (draws : List Draw) :
    (streamBytes draws).length = 8 * draws.length := by
  unfold streamBytes
  rw [List.flatMap_def, List.length_flatten, map_length_bytes]
  simp [Nat.mul_comm]

/-- All draws have as many bytes, so the bytes of the whole tell those of each. -/
theorem streamBytes_eq_iff (xs ys : List Draw) :
    streamBytes xs = streamBytes ys ↔ xs.map bytes = ys.map bytes := by
  rw [List.eq_iff_flatten_eq, map_length_bytes, map_length_bytes, ← List.flatMap_def,
    ← List.flatMap_def]
  constructor
  · intro h
    refine ⟨h, ?_⟩
    have hlength := congrArg List.length h
    rw [length_streamBytes, length_streamBytes] at hlength
    rw [Nat.eq_of_mul_eq_mul_left (by decide) hlength]
  · intro h
    exact h.1

/-! ## Fingerprints by any hash -/

/-- The fingerprint with another hash in the place of SHA-256. -/
def digestBy (hash : List UInt8 → List UInt8) (draws : List Draw) : List Char :=
  hexText (hash (streamBytes draws))

theorem digest_eq_digestBy (draws : List Draw) : digest draws = digestBy Sha256.hash draws := rfl

theorem digestBy_eq_iff {hash : List UInt8 → List UInt8} {xs ys : List Draw} :
    digestBy hash xs = digestBy hash ys ↔ hash (streamBytes xs) = hash (streamBytes ys) :=
  hexText_inj

end Draw

end SeededStreams
