import Workload.Correctness.Reading

/-!
# `Correctness.Opening` — a document is opened from its file

`workload_open_xml_from_file` reads the file in as many pieces as `read` makes of it. What has been read is always the
beginning of the file, so what is parsed is the whole file or nothing, whatever the pieces are.

* **`open_whole_or_nothing`** — any file.
* **`open_document`** — a file that holds a document.
-/

namespace Workload

variable {file : XmlFile} {bytes buffer result : Text} {fuel : Nat} {bufferAllocated xmlAllocated : Bool}

/-- What `read` gives is what the file holds at the position, and no more than was wanted. -/
def ReadsFrom (file : XmlFile) (bytes : Text) : Prop :=
  ∀ pos want got, file.read pos want = some got → got <+: bytes.drop pos ∧ got.length ≤ want

/-- Before its end the file can be read. -/
def Readable (file : XmlFile) : Prop :=
  ∀ pos want, pos < file.size → 0 < want → ∃ got, file.read pos want = some got ∧ got ≠ []

/-- One more piece of the file. -/
theorem append_piece {got : Text} (hbuffer : buffer <+: bytes) (hgot : got <+: bytes.drop buffer.length) :
    buffer ++ got <+: bytes := by
  obtain ⟨rest, rfl⟩ := hbuffer
  rw [List.drop_left] at hgot
  exact (List.prefix_append_right_inj buffer).mpr hgot

/-- **The reading loop** ends, with the beginning of the file. -/
theorem xmlReadLoop_reads (hread : ReadsFrom file bytes) (hbuffer : buffer <+: bytes) (hle : buffer.length ≤ file.size)
    (hfuel : file.size - buffer.length < fuel) : ∃ result, xmlReadLoop file fuel buffer = some result ∧
      result <+: bytes ∧ result.length ≤ file.size ∧ (Readable file → result.length = file.size) := by
  induction fuel generalizing buffer with
  | zero => exact absurd hfuel (Nat.not_lt_zero _)
  | succ fuel ih =>
      unfold xmlReadLoop
      dsimp only
      -- the size of the next piece
      generalize hwant : (if file.size - buffer.length > 64 <<< 10 then 64 <<< 10 else file.size - buffer.length) = want
      have hwant_le : want ≤ file.size - buffer.length := by
        rw [← hwant]
        split_ifs <;> omega
      have hdone : Readable file → (∀ got, file.read buffer.length want = some got → got = []) →
          buffer.length = file.size := by
        intro hreadable hstop
        by_contra hne
        have hpos : 0 < want := by
          rw [← hwant]
          split_ifs <;> omega
        obtain ⟨got, hgot, hnil⟩ := hreadable buffer.length want (by omega) hpos
        exact hnil (hstop got hgot)
      cases hpiece : file.read buffer.length want with
      | none =>
          exact ⟨buffer, rfl, hbuffer, hle, fun hreadable =>
            hdone hreadable fun got hgot => by simp [hpiece] at hgot⟩
      | some got =>
          cases got with
          | nil =>
              refine ⟨buffer, rfl, hbuffer, hle, fun hreadable => hdone hreadable fun got hgot => ?_⟩
              exact (Option.some.inj (hpiece.symm.trans hgot)).symm
          | cons c got =>
              obtain ⟨hprefixOf, hlen⟩ := hread _ _ _ hpiece
              have hlen_append : (buffer ++ c :: got).length = buffer.length + (got.length + 1) := List.length_append
              rw [List.length_cons] at hlen
              exact ih (append_piece hbuffer hprefixOf) (by omega) (by omega)

theorem take_of_reads (hbuffer : buffer <+: bytes) (hlen : buffer.length = file.size) :
    bytes.take file.size = buffer := by
  rw [← hlen]
  exact (List.prefix_iff_eq_take.mp hbuffer).symm

/-- The parser gets all of a file that can be read. -/
theorem open_readable (hread : ReadsFrom file bytes) (hreadable : Readable file) (hpos : 0 < file.size)
    (hsmall : file.size < 4 <<< 20) :
    workloadOpenXmlFromFile true xmlAllocated (some file) = workloadOpenXml xmlAllocated (bytes.take file.size) := by
  obtain ⟨buffer, hloop, hbuffer, -, hall⟩ := xmlReadLoop_reads hread List.nil_prefix (Nat.zero_le _)
    (Nat.lt_succ_self file.size)
  unfold workloadOpenXmlFromFile
  dsimp only
  rw [if_neg (by omega), if_neg (by simp), hloop]
  simp only [Option.bind_eq_bind, Option.bind_some]
  rw [if_pos (hall hreadable), take_of_reads hbuffer (hall hreadable)]

/-- **A file is opened whole or not at all**: the parser gets all the bytes the file had when its size was taken, in as
    many pieces as they come; and it does get them if nothing goes wrong. -/
theorem open_whole_or_nothing (hread : ReadsFrom file bytes) :
    (workloadOpenXmlFromFile bufferAllocated xmlAllocated (some file) = some none ∨
      file.size ≤ bytes.length ∧ workloadOpenXmlFromFile bufferAllocated xmlAllocated (some file) =
        workloadOpenXml xmlAllocated (bytes.take file.size)) ∧
    (Readable file → 0 < file.size → file.size < 4 <<< 20 → bufferAllocated = true →
      workloadOpenXmlFromFile bufferAllocated xmlAllocated (some file) =
        workloadOpenXml xmlAllocated (bytes.take file.size)) := by
  constructor
  · obtain ⟨buffer, hloop, hbuffer, -, -⟩ := xmlReadLoop_reads hread List.nil_prefix (Nat.zero_le _)
      (Nat.lt_succ_self file.size)
    unfold workloadOpenXmlFromFile
    dsimp only
    split_ifs
    · exact .inl rfl
    · exact .inl rfl
    · rw [hloop]
      simp only [Option.bind_eq_bind, Option.bind_some]
      by_cases hlen : buffer.length = file.size
      · rw [if_pos hlen, take_of_reads hbuffer hlen]
        exact .inr ⟨hlen ▸ hbuffer.length_le, rfl⟩
      · rw [if_neg hlen]
        exact .inl rfl
  · rintro hreadable hpos hsmall rfl
    exact open_readable hread hreadable hpos hsmall

/-- A file that gives three bytes at a time. -/
def slowFile (bytes : Text) : XmlFile := ⟨bytes.length, fun pos want => some ((bytes.drop pos).take (min want 3))⟩

theorem slowFile_reads (bytes : Text) : ReadsFrom (slowFile bytes) bytes := by
  intro pos want got hgot
  obtain rfl := Option.some.inj hgot
  exact ⟨List.take_prefix _ _, (List.length_take_le _ _).trans (Nat.min_le_left _ _)⟩

theorem slowFile_readable (bytes : Text) : Readable (slowFile bytes) := by
  intro pos want hpos hwant
  refine ⟨_, rfl, ?_⟩
  have hlen : (bytes.drop pos).length ≠ 0 := by
    rw [List.length_drop]
    exact Nat.sub_ne_zero_of_lt hpos
  rw [Ne, List.take_eq_nil_iff, not_or]
  exact ⟨by omega, fun hnil => hlen (by rw [hnil, List.length_nil])⟩

theorem open_whole_small : workloadOpenXmlFromFile true true (some (slowFile "<a><b x='1'/></a>".toList)) =
    some (some smallTags) :=
  ((open_whole_or_nothing (slowFile_reads _)).2 (slowFile_readable _) (by decide) (by decide) rfl).trans rfl

/-- **A document is opened from its file**, as the tree it means; it is small enough for a configuration. -/
theorem open_document (d : XmlDocument) (hplain : d.Plain) (hsize : file.size = d.bytes.length)
    (hsmall : d.bytes.length < 4 <<< 20) (hread : ReadsFrom file d.bytes) (hreadable : Readable file) :
    ∃ (root : EzxmlRoot) (doc : Document), workloadOpenXmlFromFile true true (some file) = some (some root) ∧
      root.err = none ∧ root.cur = none ∧ doc.root = d.root ∧
      readNode root.heap root.heap.size (some 0) = some [doc.root] := by
  obtain ⟨root, hparse, herr, hcur, hroot⟩ := parse_document d hplain
  obtain ⟨o, hkeeps, hcensus, -⟩ := parsed_outline ((ezxmlParseStr_plain d hplain).symm.trans hparse)
  obtain ⟨x, hx, hsizeOf⟩ := hkeeps.readRoot
  obtain rfl := (List.cons.inj (Option.some.inj (hroot.symm.trans hx))).1
  have hclosed := hcensus.closed (hkeeps.cur.symm.trans hcur)
  have hne : d.bytes ≠ [] := by
    intro hnil
    rw [hnil, List.length_nil] at hclosed
    have := hkeeps.valid.pos
    omega
  have hpos := List.length_pos_iff.mpr hne
  refine ⟨root, ⟨d.root, by omega⟩, ?_, herr, hcur, rfl, hroot⟩
  rw [open_readable hread hreadable (by omega) (by omega), hsize, List.take_length, workloadOpenXml,
    if_neg (by simp [hne]), hparse, Option.map_some]

theorem open_document_small : ∃ (root : EzxmlRoot) (doc : Document),
    workloadOpenXmlFromFile true true (some (slowFile smallXmlDocument.bytes)) = some (some root) ∧
      root.err = none ∧ root.cur = none ∧ doc.root = smallXmlDocument.root ∧
      readNode root.heap root.heap.size (some 0) = some [doc.root] :=
  open_document smallXmlDocument ⟨List.forall_mem_nil _, by decide⟩ rfl (by decide) (slowFile_reads _)
    (slowFile_readable _)

end Workload
