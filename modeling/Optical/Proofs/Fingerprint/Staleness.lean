import Optical.Proofs.Addresses
import Optical.Proofs.Fingerprint.Samples

/-!
# What two lines promise of a changed image

The lines of a file's fingerprints are recorded on one image and used on another. If they give bytes
there, then, up to a collision of digests, the two images are of equal length and agree on every
sample, and the bytes are those that the other image holds now. Samples of 2048 bytes cover the whole
of an image of 20479 bytes, and the whole of a file of 8191 bytes, so up to these sizes nothing at
all has changed.

* IsSampled says which offsets of a window lie in a sample;
* SampledAlike is the agreement that the lines promise;
* agree_of_samplesOf_eq goes from equal hashed bytes to equal bytes at these offsets;
* isSampled_of_step_le says when every offset is sampled.
-/

namespace Optical
namespace Fingerprint

/-- An offset in a window of a length lies in one of a count of samples of a size. -/
def IsSampled (length count size offset : Nat) : Prop :=
  offset < length ∧ ∃ sample < count, ∃ byte < size, offset = sample * (length / count + 1) + byte

/-- Two messages have different digests or are the same. -/
def NoCollision (first second : Bytes) : Prop :=
  Digest.md5 first = Digest.md5 second → first = second

/-- The bytes that the digest of an image is taken over. -/
def imageMessage (image : Image) : Bytes :=
  samplesOf image (Window.ofRange 0 image.size) sectorSize imageSamples

/-- The bytes that the digest of a file is taken over: its path and its samples. -/
def fileMessage {κ : Type} (image : Image) (entry : Entry κ) : Bytes :=
  Text.Utf8.encode entry.path.toList ++
    samplesOf image (Window.ofExtent entry.extent) sectorSize fileSamples

/-- Two images are of equal length and agree on every sample of the image and of a file. -/
structure SampledAlike {κ : Type} (first second : Image) (entry : Entry κ) : Prop where
  length : first.size = second.size
  image : ∀ offset, IsSampled first.size imageSamples sectorSize offset →
    first[offset]? = second[offset]?
  file : ∀ offset, IsSampled entry.size fileSamples sectorSize offset →
    first[entry.extent.byteOffset + offset]? = second[entry.extent.byteOffset + offset]?

section Coverage

/-- The start of every sample that begins in the window is listed. -/
theorem mem_sampleOffsets
    {length count sample : Nat}
    (hsample : sample < count)
    (hinside : sample * sampleStep length count < length) :
    sample * sampleStep length count ∈ sampleOffsets length count := by
  rw [sampleOffsets, List.mem_map]
  refine ⟨sample, ?_, rfl⟩
  have hstep : 0 < sampleStep length count := Nat.succ_pos _
  have hlisted : sample + 1 ≤
      (length + (sampleStep length count - 1)) / sampleStep length count := by
    rw [Nat.le_div_iff_mul_le hstep, Nat.add_mul]
    omega
  rw [List.mem_range]
  omega

/-- Samples that are as long as their distance cover the window. -/
theorem isSampled_of_step_le
    {length count size offset : Nat}
    (hstep : length / count + 1 ≤ size)
    (hcount : 0 < count)
    (hoffset : offset < length) :
    IsSampled length count size offset := by
  have hpositive : 0 < length / count + 1 := Nat.succ_pos _
  refine ⟨hoffset, offset / (length / count + 1), ?_, offset % (length / count + 1), ?_, ?_⟩
  · rw [Nat.div_lt_iff_lt_mul hpositive]
    exact Nat.lt_trans hoffset (Nat.lt_mul_div_succ length hcount)
  · exact Nat.lt_of_lt_of_le (Nat.mod_lt offset hpositive) hstep
  · rw [Nat.mul_comm]
    exact (Nat.div_add_mod offset _).symm

end Coverage

section Agreement

variable {first second : Image}

/-- Joined runs of equal lengths are equal one by one. -/
theorem forall_eq_of_flatMap_eq
    {α β : Type}
    {f g : α → List β}
    {xs : List α}
    (hlength : ∀ x ∈ xs, (f x).length = (g x).length)
    (h : xs.flatMap f = xs.flatMap g) :
    ∀ x ∈ xs, f x = g x := by
  induction xs with
  | nil => simp
  | cons x xs ih =>
      rw [List.forall_mem_cons] at hlength ⊢
      rw [List.flatMap_cons, List.flatMap_cons] at h
      obtain ⟨hfirst, hrest⟩ := List.append_inj h hlength.1
      exact ⟨hfirst, ih hlength.2 hrest⟩

/-- Images of one length with the same samples of a window agree on every sample. -/
theorem agree_of_samplesOf_eq
    (hsize : first.size = second.size)
    {w : Window}
    {sampleSize sampleCount : Nat}
    (h : samplesOf first w sampleSize sampleCount = samplesOf second w sampleSize sampleCount)
    {offset : Nat}
    (hsampled : IsSampled w.length sampleCount sampleSize offset) :
    first[w.start + offset]? = second[w.start + offset]? := by
  obtain ⟨hinside, sample, hsample, byte, hbyte, rfl⟩ := hsampled
  have hstart : sample * sampleStep w.length sampleCount < w.length :=
    Nat.lt_of_le_of_lt (Nat.le_add_right _ _) hinside
  have hlisted := mem_sampleOffsets hsample hstart
  -- Samples are cut at the end of the window and of the image, at the same places on both images.
  have hlengths : ∀ start ∈ sampleOffsets w.length sampleCount,
      (sampleAt first w sampleSize start).length = (sampleAt second w sampleSize start).length := by
    intro start _
    rw [sampleAt, sampleAt, Image.part_length, Image.part_length, hsize]
  have hpart := forall_eq_of_flatMap_eq hlengths h _ hlisted
  have hcut : byte < min sampleSize (w.length - sample * sampleStep w.length sampleCount) := by
    simp only [sampleStep] at hstart ⊢
    omega
  rw [← Nat.add_assoc]
  exact Image.getElem?_of_part_eq hpart hcut

/-- Digests that are equal as texts are those of equal messages, up to a collision. -/
theorem eq_of_digestText_eq
    {message other : Bytes}
    (hdistinct : NoCollision message other)
    (h : Digest.digestText (Digest.md5 message) = Digest.digestText (Digest.md5 other)) :
    message = other := by
  apply hdistinct
  apply Digest.hex_injective
  rw [Digest.digestText, Digest.digestText] at h
  have hdigits := congrArg String.toList h
  rwa [String.toList_ofList, String.toList_ofList] at hdigits

/-- Images that agree on an extent have the same contents there. -/
theorem eval_contents_congr
    {extent : Extent}
    (h : ∀ offset, offset < extent.length →
      first[extent.byteOffset + offset]? = second[extent.byteOffset + offset]?) :
    first.eval extent.contents = second.eval extent.contents := by
  have hpart : first.part extent.byteOffset extent.length =
      second.part extent.byteOffset extent.length := Image.part_congr h
  rw [Extent.contents, Image.eval_readExact, Image.eval_readExact, hpart]

end Agreement

section Recorded

variable {κ : Type}
variable {first second : Image}
variable {entry : Entry κ}
variable {imageMark : ImageFingerprint}
variable {fileMark : FileFingerprint}

/-- Recorded lines give bytes on an image only if its length and both digests are the recorded. -/
theorem unchanged_of_eval_resolve
    (himage : first.eval ImageFingerprint.ofImage = .ok imageMark)
    (hfile : first.eval (FileFingerprint.ofEntry entry) = .ok fileMark)
    {bytes : Bytes}
    (h : second.eval
      (resolve (String.ofList imageMark.render) (String.ofList fileMark.render)) =
        .ok (some bytes)) :
    first.size = second.size ∧
      Digest.digestText (Digest.md5 (imageMessage first)) =
        Digest.digestText (Digest.md5 (imageMessage second)) ∧
      Digest.digestText (Digest.md5 (fileMessage first entry)) =
        Digest.digestText (Digest.md5 (fileMessage second entry)) ∧
      second.eval entry.extent.contents = .ok bytes := by
  rw [ImageFingerprint.ofImage, ImageFingerprint.eval_take] at himage
  cases himage
  rw [FileFingerprint.eval_ofEntry_eq_ok_iff] at hfile
  obtain ⟨hend, rfl⟩ := hfile
  by_cases hsize : first.size < offsetBound
  · have hparsed := ImageFingerprint.parse_render (ImageFingerprint.sound_onImage hsize)
    have hfileParsed := FileFingerprint.parse_render (FileFingerprint.sound_onImage first hend)
    rw [eval_resolve second hparsed hfileParsed (FileFingerprint.window?_onImage first hend)] at h
    split at h
    · next hkept =>
        obtain ⟨hsameImage, hsameFile⟩ := hkept
        have hlength : second.size = first.size := congrArg ImageFingerprint.length hsameImage
        have hdigest := congrArg ImageFingerprint.digest hsameImage
        refine ⟨hlength.symm, hdigest.symm, hsameFile.symm, ?_⟩
        rcases entry.extent.contents_or_unexpectedEnd second with
          ⟨found, hcontents, hstream⟩ | ⟨-, failure, -, -, hstream, -⟩
        · rw [hstream] at h
          cases h
          exact hcontents
        · rw [hstream] at h
          cases h
    · cases h
  · -- An image that is too long for its line has none that could be read back.
    have hrefused := ImageFingerprint.parse_render_onImage first
    rw [if_neg hsize] at hrefused
    rw [resolve, resolveWindow, hrefused] at h
    cases h

/-- Equal lengths and equal hashed bytes are agreement on every sample. -/
theorem sampledAlike_of_messages_eq
    (hlength : first.size = second.size)
    (himage : imageMessage first = imageMessage second)
    (hfile : fileMessage first entry = fileMessage second entry) :
    SampledAlike first second entry where
  length := hlength
  image offset hsampled := by
    rw [imageMessage, imageMessage, ← hlength] at himage
    have hagree := agree_of_samplesOf_eq hlength himage hsampled
    rwa [show (Window.ofRange 0 first.size).start + offset = offset from Nat.zero_add offset]
      at hagree
  file offset hsampled := by
    have hsamples := List.append_cancel_left hfile
    exact agree_of_samplesOf_eq hlength hsamples hsampled

/-- Images that agree on every sample are the same if the samples leave nothing out. -/
theorem SampledAlike.eq_of_size_le
    (h : SampledAlike first second entry)
    (hsize : first.size ≤ 20479) :
    first = second := by
  apply Array.ext_getElem?
  intro offset
  by_cases hinside : offset < first.size
  · refine h.image offset (isSampled_of_step_le ?_ (by decide) hinside)
    have hquotient : first.size / imageSamples ≤ 20479 / 10 := Nat.div_le_div_right hsize
    exact Nat.succ_le_succ hquotient
  · have hbehind : second.size ≤ offset := by
      rw [← h.length]
      exact Nat.le_of_not_lt hinside
    rw [Array.getElem?_eq_none (Nat.le_of_not_lt hinside), Array.getElem?_eq_none hbehind]

/-- A file whose samples leave nothing out has the same contents on images that agree on them. -/
theorem SampledAlike.eval_contents_eq
    (h : SampledAlike first second entry)
    (hsize : entry.size ≤ 8191) :
    first.eval entry.extent.contents = second.eval entry.extent.contents := by
  apply eval_contents_congr
  intro offset hinside
  refine h.file offset (isSampled_of_step_le ?_ (by decide) hinside)
  have hquotient : entry.size / fileSamples ≤ 8191 / 4 := Nat.div_le_div_right hsize
  exact Nat.succ_le_succ hquotient

end Recorded

/--
**Recorded lines never give stale bytes.**
The lines of a file are recorded on one image and used on another. What they give there are the bytes
that the other image holds, and they give nothing unless both images are of equal length and agree on
every sample, as long as the hashed bytes do not collide. A file of 8191 bytes and an image of 20479
bytes are sampled as a whole.
-/
theorem resolve_never_stale
    {κ : Type}
    {first second : Image}
    {entry : Entry κ}
    (addressable : entry.endOffset < offsetBound)
    (imageDistinct : NoCollision (imageMessage first) (imageMessage second))
    (fileDistinct : NoCollision (fileMessage first entry) (fileMessage second entry)) :
    ∃ imageMark fileMark,
      first.eval ImageFingerprint.ofImage = .ok imageMark ∧
      first.eval (FileFingerprint.ofEntry entry) = .ok fileMark ∧
      (∀ bytes,
        second.eval (resolve (String.ofList imageMark.render) (String.ofList fileMark.render)) =
            .ok (some bytes) →
          SampledAlike first second entry ∧
          second.eval entry.extent.contents = .ok bytes ∧
          (entry.size ≤ 8191 → first.eval entry.extent.contents = .ok bytes) ∧
          (first.size ≤ 20479 → first = second)) ∧
      (¬ SampledAlike first second entry →
        second.eval (resolve (String.ofList imageMark.render) (String.ofList fileMark.render)) =
            .ok none ∨
        ∃ failure,
          second.eval (resolve (String.ofList imageMark.render) (String.ofList fileMark.render)) =
            .error failure) := by
  have himage := ImageFingerprint.eval_take first sectorSize imageSamples
  have hfile := (FileFingerprint.eval_ofEntry_eq_ok_iff first _).mpr ⟨addressable, rfl⟩
  have hgiven : ∀ bytes,
      second.eval (resolve
          (String.ofList (ImageFingerprint.onImage first sectorSize imageSamples).render)
          (String.ofList (FileFingerprint.onImage first entry).render)) = .ok (some bytes) →
        SampledAlike first second entry ∧ second.eval entry.extent.contents = .ok bytes := by
    intro bytes h
    obtain ⟨hlength, himageDigest, hfileDigest, hcontents⟩ :=
      unchanged_of_eval_resolve himage hfile h
    have himageMessage := eq_of_digestText_eq imageDistinct himageDigest
    have hfileMessage := eq_of_digestText_eq fileDistinct hfileDigest
    exact ⟨sampledAlike_of_messages_eq hlength himageMessage hfileMessage, hcontents⟩
  refine ⟨_, _, himage, hfile, ?_, ?_⟩
  · intro bytes h
    obtain ⟨halike, hcontents⟩ := hgiven bytes h
    refine ⟨halike, hcontents, ?_, halike.eq_of_size_le⟩
    intro hsmall
    rw [halike.eval_contents_eq hsmall, hcontents]
  · intro hchanged
    generalize hresolved : second.eval (resolve _ _) = outcome at hgiven ⊢
    rcases outcome with failure | (_ | bytes)
    · exact Or.inr ⟨failure, rfl⟩
    · exact Or.inl rfl
    · exact absurd (hgiven bytes rfl).1 hchanged

/-- Four bytes are marked, and one of them is changed: the lines give nothing. -/
theorem resolve_never_stale_one_byte :
    ∃ (entry : Entry Unit) (imageMark : ImageFingerprint) (fileMark : FileFingerprint),
      NoCollision (imageMessage #[1, 2, 3, 4]) (imageMessage #[1, 2, 3, 5]) ∧
      NoCollision (fileMessage #[1, 2, 3, 4] entry) (fileMessage #[1, 2, 3, 5] entry) ∧
      Image.eval #[1, 2, 3, 4] ImageFingerprint.ofImage = .ok imageMark ∧
      Image.eval #[1, 2, 3, 4] (FileFingerprint.ofEntry entry) = .ok fileMark ∧
      (Image.eval #[1, 2, 3, 5]
          (resolve (String.ofList imageMark.render) (String.ofList fileMark.render)) = .ok none ∨
        ∃ failure,
          Image.eval #[1, 2, 3, 5]
            (resolve (String.ofList imageMark.render) (String.ofList fileMark.render)) =
              .error failure) := by
  let entry : Entry Unit :=
    { name := "A", size := 4, sector := 0, isDirectory := false, attributes := ()
      parent := some 0, children := [], path := "/A" }
  have himage : NoCollision (imageMessage #[1, 2, 3, 4]) (imageMessage #[1, 2, 3, 5]) := by
    unfold NoCollision
    decide +kernel
  have hfile : NoCollision (fileMessage #[1, 2, 3, 4] entry) (fileMessage #[1, 2, 3, 5] entry) := by
    unfold NoCollision
    decide +kernel
  have hend : entry.endOffset < offsetBound := by decide
  obtain ⟨imageMark, fileMark, hmarked, hfileMarked, -, hchanged⟩ :=
    resolve_never_stale hend himage hfile
  have hdiffer : ¬ SampledAlike #[1, 2, 3, 4] #[1, 2, 3, 5] entry := by
    intro h
    have hlast := h.image 3 ⟨by decide, 3, by decide, 0, by decide, by decide⟩
    revert hlast
    decide
  exact ⟨entry, imageMark, fileMark, himage, hfile, hmarked, hfileMarked, hchanged hdiffer⟩

end Fingerprint
end Optical
