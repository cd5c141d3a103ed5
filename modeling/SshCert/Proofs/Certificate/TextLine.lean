import SshCert.Proofs.Certificate.Sniff
import SshCert.Proofs.Login.Credential
import SshCert.Proofs.Text.Base64
import SshCert.Proofs.Text.Token

/-
  Text lines and the certificates that are read from them.
  A `TextLine` is a line cut into its fields: the algorithm and the data, the blanks around them
  and whatever follows them as a comment. `parseLine_eq_ok_iff` says which lines are parsed, and
  to what: those whose first token is the algorithm in the data that the second token stands for.
  `parseLine_written` is the case of the lines that are written for a certificate, which are loaded
  like the certificate itself.
-/

namespace SshCert.Certificate

open Text Wire

/-- A line cut into its fields. -/
structure TextLine where
  lead : Bytes
  type : Bytes
  gap : Bytes
  data : Bytes
  comment : Bytes
  trail : Bytes
  deriving DecidableEq, Repr

namespace TextLine

/-- The whole line. -/
def text (l : TextLine) : Bytes :=
  l.lead ++ (l.type ++ (l.gap ++ (l.data ++ (l.comment ++ l.trail))))

/-- What stands around the two tokens: blanks, at least a separator between them, and a separator
in front of a comment. -/
structure Framed (l : TextLine) : Prop where
  lead : Blank l.lead
  gap_ne_nil : l.gap ≠ []
  gap_separated : Separated l.gap
  gap : Blank l.gap
  comment : Separated l.comment
  trail : Blank l.trail

variable {l : TextLine}

/-- Both tokens are found. The second one must not end in a blank, or it would be trimmed where
no comment follows it. -/
theorem Framed.tokens (h : l.Framed) (htype : IsToken l.type) (hdata : IsToken l.data)
    (hend : trimEnd l.data = l.data) :
    (token l.text).1 = l.type ∧ (token (token l.text).2).1 = l.data := by
  have htail : trimEnd (l.comment ++ l.trail) = trimEnd l.comment := trimEnd_append_blank h.trail
  have hafter : trimEnd (l.data ++ (l.comment ++ l.trail)) = l.data ++ trimEnd l.comment := by
    rw [trimEnd_append_of_self hend, htail]
  have hrest : trimEnd (l.gap ++ (l.data ++ (l.comment ++ l.trail))) =
      l.gap ++ (l.data ++ trimEnd l.comment) :=
    trimEnd_append hafter (List.append_ne_nil_of_left_ne_nil hdata.ne_nil _)
  have hline : trimEnd (l.type ++ (l.gap ++ (l.data ++ (l.comment ++ l.trail)))) =
      l.type ++ (l.gap ++ (l.data ++ trimEnd l.comment)) :=
    trimEnd_append hrest (List.append_ne_nil_of_left_ne_nil h.gap_ne_nil _)
  have hseparated : Separated (l.gap ++ (l.data ++ trimEnd l.comment)) :=
    (separated_append_iff h.gap_ne_nil).mpr h.gap_separated
  have hsecond : token (l.gap ++ (l.data ++ trimEnd l.comment)) = (l.data, trimEnd l.comment) := by
    refine token_append h.gap hdata h.comment.trimEnd ?_
    rw [trimEnd_append_of_self hend, trimEnd_trimEnd]
  rw [text, token_append h.lead htype hseparated hline]
  exact ⟨rfl, congrArg Prod.fst hsecond⟩

/-- Two tokens that are found cut the line into its fields. What follows the second one is taken
for the comment. -/
theorem exists_of_tokens {line type rest data rest' : Bytes} (htype : token line = (type, rest))
    (hdata : token rest = (data, rest')) (hne : type ≠ []) (hne' : data ≠ []) :
    ∃ l : TextLine, l.Framed ∧ l.text = line ∧ l.type = type ∧ l.data = data ∧
      IsToken type := by
  obtain ⟨lead, trail, hlead, htrail, hline, htoken, hrest⟩ := Text.exists_of_token_eq htype hne
  obtain ⟨gap, trail', hgap, htrail', hrest', htoken', hcomment⟩ :=
    Text.exists_of_token_eq hdata hne'
  -- the gap is what the rest begins with, as the data begins with no separator
  rw [hrest'] at hrest
  have hgap_ne : gap ≠ [] := by
    rintro rfl
    exact htoken'.not_separated ((separated_append_iff hne').mp hrest)
  have hgap_separated : Separated gap := (separated_append_iff hgap_ne).mp hrest
  refine ⟨⟨lead, type, gap, data, rest', trail' ++ trail⟩,
    ⟨hlead, hgap_ne, hgap_separated, hgap, hcomment, htrail'.append htrail⟩, ?_, rfl, rfl, htoken⟩
  rw [hline, hrest', text]
  simp only [List.append_assoc]

end TextLine

/-! ## What is parsed -/

theorem ne_nil_of_algorithm? {b name : Bytes} (h : algorithm? b = some name) : name ≠ [] := by
  obtain ⟨-, -, hmark⟩ := algorithm?_eq_some_iff.mp h
  rintro rfl
  exact absurd (List.infix_nil.mp hmark) (by decide)

/-- A line is parsed if the data of its second token begins with its first one as the algorithm. -/
theorem parseLine_eq_ok_iff_token {line b : Bytes} :
    parseLine line = .ok b ↔ algorithm? b = some (token line).1 ∧
      Base64.decode (token (token line).2).1 = some b := by
  unfold parseLine
  generalize htype : token line = p
  obtain ⟨type, rest⟩ := p
  dsimp only
  generalize hdata : token rest = p
  obtain ⟨data, rest'⟩ := p
  dsimp only
  constructor
  · intro h
    split at h
    · cases h
    split at h
    · cases h
    split at h
    · cases h
    · next b' hdecode =>
      split at h
      · cases h
      · next dataType halgorithm =>
        split at h
        · next heq =>
          cases h
          exact ⟨by rw [halgorithm, heq], hdecode⟩
        · cases h
  · intro h
    obtain ⟨halgorithm, hdecode⟩ := h
    obtain ⟨-, -, hmark⟩ := algorithm?_eq_some_iff.mp halgorithm
    have htype_ne : type ≠ [] := ne_nil_of_algorithm? halgorithm
    have hdata_ne : data ≠ [] := (Base64.isToken_of_decode hdecode).1.ne_nil
    simp [htype_ne, hdata_ne, isCertificateName_iff.mpr hmark, hdecode, halgorithm]

/-- The lines that are parsed, and what is read from them. -/
theorem parseLine_eq_ok_iff {line b : Bytes} :
    parseLine line = .ok b ↔ ∃ l : TextLine, l.Framed ∧ IsToken l.type ∧ l.text = line ∧
      algorithm? b = some l.type ∧ Base64.decode l.data = some b := by
  rw [parseLine_eq_ok_iff_token]
  constructor
  · rcases htype : token line with ⟨type, rest⟩
    rcases hdata : token rest with ⟨data, rest'⟩
    intro h
    obtain ⟨halgorithm, hdecode⟩ := h
    obtain ⟨l, hframed, hline, rfl, rfl, htoken⟩ :=
      TextLine.exists_of_tokens htype hdata (ne_nil_of_algorithm? halgorithm)
        (Base64.isToken_of_decode hdecode).1.ne_nil
    exact ⟨l, hframed, htoken, hline, halgorithm, hdecode⟩
  · intro h
    obtain ⟨l, hframed, htype, rfl, halgorithm, hdecode⟩ := h
    obtain ⟨htoken, hend⟩ := Base64.isToken_of_decode hdecode
    obtain ⟨hfirst, hsecond⟩ := hframed.tokens htype htoken hend
    rw [hfirst, hsecond]
    exact ⟨halgorithm, hdecode⟩

/-! ## Lines that are written for a certificate -/

/-- A line is parsed to the certificate that it is written for, with either base64 text and in any
frame, and it is loaded like this certificate. Conversely, a line that is parsed begins with the
algorithm of the data that its second token stands for, and this data begins like a certificate. -/
theorem parseLine_written :
    (∀ (l : TextLine) (b rest : Bytes), l.Framed → isCertificate b = true →
        string b = some (l.type, rest) → (∀ c ∈ l.type, c ∉ blanks) →
        l.data = Base64.encode b ∨ l.data = Base64.encodeUnpadded b →
        parseLine l.text = .ok b ∧ ∀ (s : Suite) (file : Bytes),
          Login.Credential.load s file (.text l.text) =
            Login.Credential.load s file (.binary b)) ∧
      ∀ line b : Bytes, parseLine line = .ok b → isCertificate b = true ∧
        ∃ l : TextLine, l.Framed ∧ IsToken l.type ∧ IsToken l.data ∧ l.text = line ∧
          (token line).1 = l.type ∧ (token (token line).2).1 = l.data ∧
          (∃ rest, string b = some (l.type, rest)) ∧ Base64.decode l.data = some b := by
  constructor
  · intro l b rest hframed hcertificate hstring hunblanked hdata
    obtain ⟨name, halgorithm⟩ := Option.isSome_iff_exists.mp hcertificate
    have hname : name = l.type := by
      obtain ⟨⟨rest', hstring'⟩, -⟩ := algorithm?_eq_some_iff.mp halgorithm
      rw [hstring] at hstring'
      cases hstring'
      rfl
    rw [hname] at halgorithm
    have hb : b ≠ [] := by
      rintro rfl
      cases hstring
    have hdecode : Base64.decode l.data = some b := by
      rcases hdata with hdata | hdata
      · rw [hdata, Base64.decode_encode hb]
      · rw [hdata, Base64.decode_encodeUnpadded hb]
    have htype : IsToken l.type :=
      isToken_of_unblanked (ne_nil_of_algorithm? halgorithm) hunblanked
    have hparse : parseLine l.text = .ok b :=
      parseLine_eq_ok_iff.mpr ⟨l, hframed, htype, rfl, halgorithm, hdecode⟩
    refine ⟨hparse, fun s file => Login.Credential.load_congr ?_ s file⟩
    rw [Source.toBinary, hparse]
    rfl
  · intro line b hparse
    obtain ⟨l, hframed, htype, rfl, halgorithm, hdecode⟩ := parseLine_eq_ok_iff.mp hparse
    obtain ⟨htoken, hend⟩ := Base64.isToken_of_decode hdecode
    obtain ⟨hfirst, hsecond⟩ := hframed.tokens htype htoken hend
    exact ⟨isCertificate_of_algorithm? halgorithm, l, hframed, htype, htoken, rfl, hfirst, hsecond,
      (algorithm?_eq_some_iff.mp halgorithm).1, hdecode⟩

/-- A name with the certificate mark and one byte behind it. -/
def markedBlob : Bytes := encodeString (ascii "x-cert-v") ++ [1]

/-- A line for it that is broken wherever a line break may stand. -/
def brokenLine : TextLine where
  lead := ascii "\r\n "
  type := ascii "x-cert-v"
  gap := ascii "\t\n"
  data := Base64.encodeUnpadded markedBlob
  comment := ascii "\tme \nyou"
  trail := ascii "\n"

theorem parseLine_written_broken :
    brokenLine.Framed ∧ isCertificate markedBlob = true ∧
      string markedBlob = some (brokenLine.type, [1]) ∧
      (∀ c ∈ brokenLine.type, c ∉ blanks) ∧
      (brokenLine.data = Base64.encode markedBlob ∨
        brokenLine.data = Base64.encodeUnpadded markedBlob) ∧
      parseLine brokenLine.text = .ok markedBlob := by
  have hframed : brokenLine.Framed :=
    ⟨by decide, by decide, by decide, by decide, by decide, by decide⟩
  have hcertificate : isCertificate markedBlob = true := by decide
  have hstring : string markedBlob = some (brokenLine.type, [1]) := by decide
  have hunblanked : ∀ c ∈ brokenLine.type, c ∉ blanks := by decide +kernel
  exact ⟨hframed, hcertificate, hstring, hunblanked, Or.inr rfl,
    (parseLine_written.1 brokenLine markedBlob [1] hframed hcertificate hstring hunblanked
      (Or.inr rfl)).1⟩

end SshCert.Certificate
