import SafetyTrolley.Lib.Blocks
import SafetyTrolley.RcRemote

/-! Which windows of a packet stream the decoder accepts. The framing is one
marker value at two offsets, so a payload byte can stand in for a marker. -/

namespace SafetyTrolley

def serialStream (ps : List (Vector UInt8 8)) : List UInt8 := (ps.map serialPacket).flatten

theorem serialPacket_length (p : Vector UInt8 8) : (serialPacket p).length = 10 := by
  simp [serialPacket]

theorem serialStream_getElem? (ps : List (Vector UInt8 8)) (m j : Nat) (hj : j < 10) :
    (serialStream ps)[10 * m + j]? = ps[m]?.bind fun p => (serialPacket p)[j]? := by
  have hlen : ∀ b ∈ ps.map serialPacket, b.length = 10 := by simp [serialPacket_length]
  rw [serialStream, Blocks.getElem?_flatten hlen m j hj, List.getElem?_map, Option.bind_map]
  rfl

theorem serialStream_window (ps : List (Vector UInt8 8)) (pre w post : List UInt8)
    (hw : serialStream ps = pre ++ w ++ post) {i : Nat} (hi : i < w.length) :
    w[i]? = (serialStream ps)[pre.length + i]? := by
  rw [hw, List.append_assoc, List.getElem?_append_right (by omega), Nat.add_sub_cancel_left,
    List.getElem?_append_left hi]

theorem ofBytes_getElem (w : List UInt8) (i : Nat) (hi : i < judgeBufferSize) :
    (RxBuffer.ofBytes w)[i] = w.getD i 0 := by
  simp [RxBuffer.ofBytes]

theorem serialPayload_ofBytes (w : List UInt8) :
    serialPayload (RxBuffer.ofBytes w) = Vector.ofFn fun i => w.getD (i.val + 1) 0 := by
  simp only [serialPayload, ofBytes_getElem]
  rfl

theorem ofBytes_eq_marker (w : List UInt8) (i : Nat) (hi : i < judgeBufferSize) :
    (RxBuffer.ofBytes w)[i] = 170 ↔ w[i]? = some 170 := by
  rw [ofBytes_getElem, List.getD_eq_getElem?_getD]
  cases w[i]? with
  | none => simp
  | some b => simp

theorem serialAccepts_ofBytes (w : List UInt8) :
    serialAccepts (RxBuffer.ofBytes w) = true ↔ w[0]? = some 170 ∧ w[9]? = some 170 := by
  rw [serialAccepts, Bool.and_eq_true, beq_iff_eq, beq_iff_eq, ofBytes_eq_marker, ofBytes_eq_marker]

theorem serialPacket_marker {p : Vector UInt8 8} {j : Nat} (h : (serialPacket p)[j]? = some 170) :
    j = 0 ∨ j = 9 ∨ 170 ∈ p.toList := by
  rcases Nat.eq_zero_or_pos j with rfl | hpos
  · exact Or.inl rfl
  obtain ⟨i, rfl⟩ := Nat.exists_eq_add_of_lt hpos
  rw [Nat.zero_add, serialPacket, List.cons_append, List.getElem?_cons_succ] at h
  rcases Nat.lt_or_ge i 8 with hi | hi
  · rw [List.getElem?_append_left (by simpa using hi)] at h
    exact Or.inr (Or.inr (List.mem_of_getElem? h))
  · have hlt := (List.getElem?_eq_some_iff.mp h).1
    simp only [List.length_append, Vector.length_toList, List.length_singleton] at hlt
    exact Or.inr (Or.inl (by omega))

theorem packet_accepts {w : List UInt8} {p : Vector UInt8 8}
    (h : ∀ i < 10, w[i]? = (serialPacket p)[i]?) :
    serialAccepts (RxBuffer.ofBytes w) = true ∧ serialPayload (RxBuffer.ofBytes w) = p := by
  constructor
  · refine (serialAccepts_ofBytes w).mpr ⟨h 0 (by omega), ?_⟩
    rw [h 9 (by omega), serialPacket, List.getElem?_append_right (by simp)]
    simp
  · apply Vector.ext
    intro i hi
    rw [serialPayload_ofBytes, Vector.getElem_ofFn, List.getD_eq_getElem?_getD,
      h (i + 1) (by omega), serialPacket, List.cons_append, List.getElem?_cons_succ,
      List.getElem?_append_left (by simpa using hi), List.getElem?_eq_getElem (by simpa using hi)]
    simp

/-- Byte `φ` of one packet and byte `φ - 1` of the next both carry the marker's value. -/
def Mimics (φ : Nat) (p q : Vector UInt8 8) : Prop :=
  (serialPacket p)[φ]? = some 170 ∧ (serialPacket q)[φ - 1]? = some 170

section Window

variable {ps : List (Vector UInt8 8)} {pre w post : List UInt8} {m φ : Nat}

theorem window_getElem? (hw : serialStream ps = pre ++ w ++ post) (hpre : pre.length = 10 * m + φ)
    {i : Nat} (hi : i < w.length) :
    (φ + i < 10 → w[i]? = ps[m]?.bind fun p => (serialPacket p)[φ + i]?) ∧
      (10 ≤ φ + i → φ + i < 20 → w[i]? = ps[m + 1]?.bind fun p => (serialPacket p)[φ + i - 10]?) := by
  rw [serialStream_window ps pre w post hw hi, hpre]
  constructor
  · intro h
    rw [Nat.add_assoc, serialStream_getElem? ps m (φ + i) h]
  · intro h h'
    have hpos : 10 * m + φ + i = 10 * (m + 1) + (φ + i - 10) := by omega
    rw [hpos, serialStream_getElem? ps (m + 1) _ (by omega)]

theorem aligned_accepts (hw : serialStream ps = pre ++ w ++ post) (hpre : pre.length = 10 * m)
    (hlen : 10 ≤ w.length) :
    serialAccepts (RxBuffer.ofBytes w) = true ∧
      ∃ p, ps[m]? = some p ∧ serialPayload (RxBuffer.ofBytes w) = p := by
  have hbyte (i : Nat) (hi : i < 10) : w[i]? = ps[m]?.bind fun p => (serialPacket p)[i]? := by
    simpa using (window_getElem? (φ := 0) hw hpre (show i < w.length by omega)).1 (by omega)
  cases hp : ps[m]? with
  | none =>
    have hnone := hbyte 0 (by omega)
    rw [hp, List.getElem?_eq_getElem (show 0 < w.length by omega)] at hnone
    cases hnone
  | some p =>
    simp only [hp, Option.bind_some] at hbyte
    obtain ⟨hacc, hpay⟩ := packet_accepts hbyte
    exact ⟨hacc, p, rfl, hpay⟩

theorem misaligned_accepts (hw : serialStream ps = pre ++ w ++ post)
    (hpre : pre.length = 10 * m + φ) (hpos : 0 < φ) (hφ : φ < 10) (hlen : 10 ≤ w.length) :
    serialAccepts (RxBuffer.ofBytes w) = true ↔
      ∃ p q, ps[m]? = some p ∧ ps[m + 1]? = some q ∧ Mimics φ p q := by
  have hfirst := (window_getElem? hw hpre (show 0 < w.length by omega)).1 (by omega)
  have hlast := (window_getElem? hw hpre (show 9 < w.length by omega)).2 (by omega) (by omega)
  have hoff : φ + 9 - 10 = φ - 1 := by omega
  rw [serialAccepts_ofBytes, hfirst, hlast, Nat.add_zero, hoff]
  simp only [Option.bind_eq_some_iff, Mimics]
  constructor
  · rintro ⟨⟨p, hp, hpb⟩, q, hq, hqb⟩
    exact ⟨p, q, hp, hq, hpb, hqb⟩
  · rintro ⟨p, q, hp, hq, hpb, hqb⟩
    exact ⟨⟨p, hp, hpb⟩, q, hq, hqb⟩

end Window

theorem Mimics.marker_in_payload {φ : Nat} {p q : Vector UInt8 8} (h : Mimics φ p q) (hpos : 0 < φ)
    (hφ : φ < 10) : 170 ∈ p.toList ∨ 170 ∈ q.toList := by
  rcases serialPacket_marker h.1 with h0 | h9 | hp
  · omega
  · rcases serialPacket_marker h.2 with h0 | h9 | hq
    · omega
    · omega
    · exact Or.inr hq
  · exact Or.inl hp

/-- The windows that are accepted: those that start with a packet, whose
payload is then the one copied, and those whose markers are mimicked. -/
theorem accepted_windows (ps : List (Vector UInt8 8)) (pre w post : List UInt8)
    (hw : serialStream ps = pre ++ w ++ post) :
    let m := pre.length / 10
    let φ := pre.length % 10
    let sdrxbuf := RxBuffer.ofBytes w
    (serialAccepts sdrxbuf = true ↔ 10 ≤ w.length ∧
      (φ = 0 ∨ ∃ p q, ps[m]? = some p ∧ ps[m + 1]? = some q ∧ Mimics φ p q)) ∧
    (φ = 0 → serialAccepts sdrxbuf = true → ∃ p, ps[m]? = some p ∧ serialPayload sdrxbuf = p) ∧
    ((∀ p ∈ ps, 170 ∉ p.toList) → serialAccepts sdrxbuf = true → serialPayload sdrxbuf ∈ ps) := by
  intro m φ sdrxbuf
  have hpre : pre.length = 10 * m + φ := (Nat.div_add_mod _ _).symm
  have hφ : φ < 10 := Nat.mod_lt _ (by decide)
  have hlong (h : serialAccepts sdrxbuf = true) : 10 ≤ w.length :=
    (List.getElem?_eq_some_iff.mp ((serialAccepts_ofBytes w).mp h).2).1
  have haligned (h : φ = 0) (hacc : serialAccepts sdrxbuf = true) :
      ∃ p, ps[m]? = some p ∧ serialPayload sdrxbuf = p :=
    (aligned_accepts (m := m) hw (by omega) (hlong hacc)).2
  have hiff : serialAccepts sdrxbuf = true ↔ 10 ≤ w.length ∧
      (φ = 0 ∨ ∃ p q, ps[m]? = some p ∧ ps[m + 1]? = some q ∧ Mimics φ p q) := by
    constructor
    · intro hacc
      refine ⟨hlong hacc, ?_⟩
      rcases Nat.eq_zero_or_pos φ with h0 | hpos
      · exact Or.inl h0
      · exact Or.inr ((misaligned_accepts hw hpre hpos hφ (hlong hacc)).mp hacc)
    · rintro ⟨hlen, h⟩
      rcases Nat.eq_zero_or_pos φ with h0 | hpos
      · exact (aligned_accepts (m := m) hw (by omega) hlen).1
      · exact (misaligned_accepts hw hpre hpos hφ hlen).mpr (h.resolve_left hpos.ne')
  refine ⟨hiff, haligned, fun hfree hacc => ?_⟩
  rcases Nat.eq_zero_or_pos φ with h0 | hpos
  · obtain ⟨p, hp, hpay⟩ := haligned h0 hacc
    rw [hpay]
    exact List.mem_of_getElem? hp
  · obtain ⟨p, q, hp, hq, hmim⟩ := (hiff.mp hacc).2.resolve_left hpos.ne'
    rcases hmim.marker_in_payload hpos hφ with h | h
    · exact absurd h (hfree p (List.mem_of_getElem? hp))
    · exact absurd h (hfree q (List.mem_of_getElem? hq))

theorem accepted_windows_bothPhases :
    let ps : List (Vector UInt8 8) := [#v[170, 1, 2, 3, 4, 5, 6, 7], #v[8, 8, 8, 8, 8, 8, 8, 8]]
    (∃ p, ps[0]? = some p ∧
      serialPayload (RxBuffer.ofBytes [170, 170, 1, 2, 3, 4, 5, 6, 7, 170, 170, 8]) = p) ∧
      ∃ p q, ps[0]? = some p ∧ ps[1]? = some q ∧ Mimics 1 p q := by
  intro ps
  refine ⟨?_, ?_⟩
  · exact (accepted_windows ps [] [170, 170, 1, 2, 3, 4, 5, 6, 7, 170, 170, 8]
      [8, 8, 8, 8, 8, 8, 8, 170] rfl).2.1 rfl (by decide)
  · have hmid := accepted_windows ps [170] [170, 1, 2, 3, 4, 5, 6, 7, 170, 170]
      [8, 8, 8, 8, 8, 8, 8, 8, 170] rfl
    exact (hmid.1.mp (by decide)).2.resolve_left (by decide)

theorem misaligned_window_accepted : ¬ ∀ ps pre w post, serialStream ps = pre ++ w ++ post →
    w.length ≤ judgeBufferSize → serialAccepts (RxBuffer.ofBytes w) = true →
    serialPayload (RxBuffer.ofBytes w) ∈ ps := by
  intro h
  have hmem := h [#v[170, 1, 2, 3, 4, 5, 6, 7], #v[8, 8, 8, 8, 8, 8, 8, 8]] [170]
    [170, 1, 2, 3, 4, 5, 6, 7, 170, 170] [8, 8, 8, 8, 8, 8, 8, 8, 170] rfl (by decide) (by decide)
  revert hmem
  decide

end SafetyTrolley
