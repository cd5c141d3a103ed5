import SshCert.Proofs.Text.Base64
import SshCert.Text.Pem

/-
  The lines of an armoured text.
  Cutting a text into pieces of one size leaves no piece empty and none short but the last
  (`Bytes.wrapped_chunks`), loses nothing (`Bytes.flatten_chunks`), and is the only way to wrap it
  (`Bytes.Wrapped.eq_of_flatten_eq`). No character of base64 ends a line, so the lines between the
  markers are these pieces and nothing else (`Pem.armour_wrapped`), and without the ends of lines
  they are the base64 of the content, which the text therefore determines (`Pem.armour_injective`).
-/

namespace SshCert

/-! ## Pieces -/

namespace Bytes

/-- Every piece is full but the last, which may be shorter, and none is empty. -/
structure Wrapped (size : Nat) (pieces : List Bytes) : Prop where
  full : ∀ piece ∈ pieces.dropLast, piece.length = size
  short : ∀ piece ∈ pieces, piece.length ≤ size
  ne_nil : ∀ piece ∈ pieces, piece ≠ []

variable {size : Nat}

theorem flatten_chunks (hsize : size ≠ 0) (b : Bytes) : (chunks size b).flatten = b := by
  fun_induction chunks size b with
  | case1 b h => exact (h.resolve_right hsize).symm
  | case2 b _ ih => rw [List.flatten_cons, ih, List.take_append_drop]

theorem chunks_nil (size : Nat) : chunks size [] = [] := by
  rw [chunks, dif_pos (Or.inl rfl)]

theorem wrapped_chunks (size : Nat) (b : Bytes) : Wrapped size (chunks size b) := by
  fun_induction chunks size b with
  | case1 b h => exact ⟨nofun, nofun, nofun⟩
  | case2 b h ih =>
    obtain ⟨hb, hsize⟩ := not_or.mp h
    refine ⟨?_, ?_, ?_⟩
    · by_cases hlast : chunks size (b.drop size) = []
      · rw [hlast, List.dropLast_singleton]
        nofun
      · -- a piece is followed by another one only if there was more than a piece left
        have hmore : size < b.length := by
          rw [← Nat.not_le]
          intro hle
          rw [List.drop_of_length_le hle, chunks_nil] at hlast
          exact hlast rfl
        rw [List.dropLast_cons_of_ne_nil hlast]
        exact List.forall_mem_cons.mpr ⟨List.length_take_of_le (Nat.le_of_lt hmore), ih.full⟩
    · exact List.forall_mem_cons.mpr ⟨List.length_take_le size b, ih.short⟩
    · refine List.forall_mem_cons.mpr ⟨?_, ih.ne_nil⟩
      rw [Ne, List.take_eq_nil_iff]
      exact not_or.mpr ⟨hsize, hb⟩

theorem Wrapped.eq_chunks {pieces : List Bytes} (h : Wrapped size pieces) :
    pieces = chunks size pieces.flatten := by
  induction pieces with
  | nil => rw [List.flatten_nil, chunks_nil]
  | cons p ps ih =>
    have hp : p ≠ [] := h.ne_nil p (.head _)
    have hle : p.length ≤ size := h.short p (.head _)
    have hmore : ¬ ((p :: ps).flatten = [] ∨ size = 0) := by
      rw [List.flatten_cons, List.append_eq_nil_iff, ← List.length_eq_zero_iff (l := p)]
      have hpos := List.length_pos_iff.mpr hp
      omega
    rw [chunks, dif_neg hmore, List.flatten_cons]
    cases ps with
    | nil =>
      rw [List.flatten_nil, List.append_nil, List.take_of_length_le hle,
        List.drop_of_length_le hle, chunks_nil]
    | cons q qs =>
      have hfull : p.length = size := h.full p (by rw [List.dropLast_cons_cons]; exact .head _)
      have hrest : Wrapped size (q :: qs) :=
        ⟨fun r hr => h.full r (by rw [List.dropLast_cons_cons]; exact .tail _ hr),
          fun r hr => h.short r (.tail _ hr), fun r hr => h.ne_nil r (.tail _ hr)⟩
      rw [List.take_left' hfull, List.drop_left' hfull, ← ih hrest]

/-- There is one way to wrap the bytes. -/
theorem Wrapped.eq_of_flatten_eq {pieces others : List Bytes} (h : Wrapped size pieces)
    (h' : Wrapped size others) (hjoined : pieces.flatten = others.flatten) : pieces = others :=
  calc
    pieces = chunks size pieces.flatten := h.eq_chunks
    _ = chunks size others.flatten := by rw [hjoined]
    _ = others := h'.eq_chunks.symm

end Bytes

namespace Pem

/-! ## Lines -/

/-- The characters of base64 neither end a line nor stand in a marker's dashes. -/
theorem plain_of_mem_encode {content : Bytes} {c : UInt8} (hc : c ∈ Base64.encode content) :
    ¬ (c = 0x0a ∨ c = 0x0d) ∧ c ≠ 0x2d := by
  have halphabet : ∀ v < 64, ¬ (Base64.character v = 0x0a ∨ Base64.character v = 0x0d)
      ∧ Base64.character v ≠ 0x2d := by decide
  rcases Base64.mem_encode hc with rfl | ⟨v, hv, rfl⟩
  · decide
  · exact halphabet v hv

/-- The lines between the markers. -/
def body (content : Bytes) : List Bytes := Bytes.chunks lineWidth (Base64.encode content)

theorem wrapped_body (content : Bytes) : Bytes.Wrapped lineWidth (body content) :=
  Bytes.wrapped_chunks _ _

theorem flatten_body (content : Bytes) : (body content).flatten = Base64.encode content :=
  Bytes.flatten_chunks (by decide) _

theorem plain_of_mem_body {content line : Bytes} (hline : line ∈ body content) {c : UInt8}
    (hc : c ∈ line) : ¬ (c = 0x0a ∨ c = 0x0d) ∧ c ≠ 0x2d := by
  have hencoded : c ∈ Base64.encode content := by
    rw [← flatten_body]
    exact List.mem_flatten_of_mem hline hc
  exact plain_of_mem_encode hencoded

theorem armour_eq_flatMap (label content : Bytes) :
    armour label content =
      (beginMarker label :: body content ++ [endMarker label]).flatMap endLine := by
  simp [armour, body, List.append_assoc]

/-- Lines that are each ended are put together again by taking out the ends. -/
theorem filter_flatMap_endLine {lines : List Bytes} (h : ∀ line ∈ lines, 0x0a ∉ line) :
    (lines.flatMap endLine).filter (· != 0x0a) = lines.flatten := by
  induction lines with
  | nil => rfl
  | cons line lines ih =>
    obtain ⟨hline, hlines⟩ := List.forall_mem_cons.mp h
    have hself : line.filter (· != 0x0a) = line := by
      rw [List.filter_eq_self]
      intro c hc
      rw [bne_iff_ne]
      rintro rfl
      exact hline hc
    rw [List.flatMap_cons, List.filter_append, ih hlines, endLine, List.filter_append, hself,
      List.flatten_cons]
    simp

theorem lineFeed_not_mem_body {content line : Bytes} (hline : line ∈ body content) :
    0x0a ∉ line :=
  fun hc => (plain_of_mem_body hline hc).1 (Or.inl rfl)

/-- Under one label, different contents are armoured differently. -/
theorem armour_injective (label : Bytes) : Function.Injective (armour label) := by
  intro a b h
  rw [armour, armour, List.append_cancel_right_eq, List.append_cancel_left_eq] at h
  change (body a).flatMap endLine = (body b).flatMap endLine at h
  replace h := congrArg (List.filter (· != 0x0a)) h
  rw [filter_flatMap_endLine fun _ => lineFeed_not_mem_body,
    filter_flatMap_endLine fun _ => lineFeed_not_mem_body, flatten_body, flatten_body] at h
  rw [← Base64.getD_decode_encode a, h, Base64.getD_decode_encode]

/-- The armoured text is a row of lines, each with a line feed behind it: the begin line, the body
and the end line. The lines of the body have exactly 64 characters, but for the last one, which may
have fewer but not none. Put together they are the base64 of the content, and are decoded to it.
Without content there are none. -/
theorem armour_wrapped (label content : Bytes) :
    ∃ lines : List Bytes,
      armour label content =
          ((ascii "-----BEGIN " ++ label ++ ascii "-----") :: lines
            ++ [ascii "-----END " ++ label ++ ascii "-----"]).flatMap (· ++ [0x0a]) ∧
        (∀ line ∈ lines.dropLast, line.length = 64) ∧
        (∀ line ∈ lines, line ≠ [] ∧ line.length ≤ 64 ∧ 0x0a ∉ line) ∧
        lines.flatten = Base64.encode content ∧
        (Base64.decode lines.flatten).getD [] = content ∧
        (content = [] → lines = []) := by
  have hwrapped := wrapped_body content
  refine ⟨body content, armour_eq_flatMap label content, hwrapped.full, fun line hline => ?_,
    flatten_body content, ?_, ?_⟩
  · exact ⟨hwrapped.ne_nil line hline, hwrapped.short line hline, lineFeed_not_mem_body hline⟩
  · rw [flatten_body, Base64.getD_decode_encode]
  · rintro rfl
    exact Bytes.chunks_nil _

/-- A content whose base64 fills a line and begins another one, and no content. -/
theorem armour_wrapped_overlong :
    armour (ascii "PUBLIC KEY") (List.replicate 48 0 ++ [0xff]) =
        ascii "-----BEGIN PUBLIC KEY-----\n" ++ (List.replicate 64 0x41 ++ [0x0a])
          ++ ascii "/w==\n-----END PUBLIC KEY-----\n" ∧
      armour (ascii "PUBLIC KEY") [] =
        ascii "-----BEGIN PUBLIC KEY-----\n-----END PUBLIC KEY-----\n" := by
  constructor
  · obtain ⟨lines, htext, hfull, hline, hjoined, -⟩ :=
      armour_wrapped (ascii "PUBLIC KEY") (List.replicate 48 0 ++ [0xff])
    have hwrapped : Bytes.Wrapped 64 lines :=
      ⟨hfull, fun line h => (hline line h).2.1, fun line h => (hline line h).1⟩
    have hlines : lines = [List.replicate 64 0x41, ascii "/w=="] :=
      hwrapped.eq_of_flatten_eq ⟨by decide, by decide, by decide⟩ (by rw [hjoined]; decide)
    rw [htext, hlines]
    decide
  · obtain ⟨lines, htext, -, -, -, -, hnone⟩ := armour_wrapped (ascii "PUBLIC KEY") []
    rw [htext, hnone rfl]
    decide

end Pem

end SshCert
