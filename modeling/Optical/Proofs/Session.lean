import Optical.Proofs.Source.Volume
import Optical.Session

/-!
# Sessions over a volume and over an image

A session over a volume gives, step by step, what it gives over the image that the volume holds: the
steps ask the same questions and are told the same, whatever the steps before have left in the
memory of the volume.

The only thing that a step can learn from the steps before is the settings, and these are the ones
that it would find by itself, so each reply is the one that the request is given on its own.

* gives_serveAll carries a session over to any source that answers as an image;
* ask_serve_congr and settingsOn_serve say what a reader takes from step to step;
* serveAll_eq_of_serves is the comparison of the two sources.
-/

namespace Optical
namespace Reader

/-- A session over a source that answers as an image is a session over the image. -/
theorem gives_serveAll
    {σ δ : Type}
    {source : Source (StateT σ (StateM δ))}
    {image : Image}
    {inv : σ → δ → Prop}
    (h : source.AnswersAs image inv)
    (reader : Reader)
    (requests : List Request) :
    Gives inv (reader.serveAll source requests) (reader.serveAll image.source requests).run := by
  -- Each request leaves another reader, and the source in another state with the invariant.
  induction requests generalizing reader with
  | nil => exact .of_pure _
  | cons request requests ih => exact (h.gives_ask _).bind ((ih _).bind (.of_pure _))

section Image

variable (image : Image)

/-- The settings with which a reader reads an image. -/
def settingsOn (reader : Reader) : Except Error Settings :=
  reader.settings.elim (image.eval Optical.detect) .ok

/-- The settings are found where they are not known, and then stay the same. -/
theorem ask_detect
    (reader : Reader) :
    ∃ known,
      image.ask reader.detect = (reader.settingsOn image, known) ∧
      known.settingsOn image = reader.settingsOn image := by
  obtain ⟨settings⟩ := reader
  cases settings with
  | some settings => exact ⟨_, rfl, rfl⟩
  | none =>
      have hfound : settingsOn image ⟨none⟩ = image.ask Optical.detect.run := rfl
      rw [detect, Image.ask_bind, hfound]
      cases houtcome : image.ask Optical.detect.run with
      | ok settings => exact ⟨withSettings settings, rfl, rfl⟩
      | error error => exact ⟨⟨none⟩, rfl, houtcome⟩

theorem ask_tree
    (reader : Reader) :
    ∃ known,
      image.ask reader.tree =
        (reader.settingsOn image >>= fun settings => image.eval (buildTree settings), known) ∧
      known.settingsOn image = reader.settingsOn image := by
  obtain ⟨known, hdetect, hknown⟩ := reader.ask_detect image
  refine ⟨known, ?_, hknown⟩
  rw [tree, Image.ask_bind, hdetect]
  cases reader.settingsOn image with
  | ok settings => exact Image.ask_bind image _ _
  | error error => rfl

/-- A request is told what the settings of its reader and its image determine. -/
def replyOn (outcome : Except Error Settings) : Request → Reply
  | .readAt offset count => .bytes (.ok (image.part offset count))
  | .detect => .settings outcome
  | .tree => .tree (outcome >>= fun settings => image.eval (buildTree settings))
  | .treeWith settings => .tree (image.eval (buildTree settings))
  | .contents node => .bytes (image.eval node.extent.contents)
  | .stream node operations =>
      .streamed (image.ask ((Window.ofExtent node.extent).performAll operations)).1
  | .imageFingerprint => .imageFingerprint (image.eval ImageFingerprint.ofImage)
  | .fileFingerprint entry => .fileFingerprint (image.eval (FileFingerprint.ofEntry entry))
  | .resolve recordedImage recordedFile =>
      .resolved (image.eval (Fingerprint.resolve recordedImage recordedFile))

theorem ask_serve
    (reader : Reader)
    (request : Request) :
    ∃ known,
      image.ask (reader.serve request) = (replyOn image (reader.settingsOn image) request, known) ∧
      known.settingsOn image = reader.settingsOn image := by
  cases request with
  | detect =>
      obtain ⟨known, hdetect, hknown⟩ := reader.ask_detect image
      refine ⟨known, ?_, hknown⟩
      rw [serve, Image.ask_bind, hdetect]
      rfl
  | tree =>
      obtain ⟨known, htree, hknown⟩ := reader.ask_tree image
      refine ⟨known, ?_, hknown⟩
      rw [serve, Image.ask_bind, htree]
      rfl
  | _ => exact ⟨reader, Image.ask_bind image _ _, rfl⟩

/-- All steps of a session over an image are told what its first reader determines. -/
theorem serveAll_image
    (reader : Reader)
    (requests : List Request) :
    (reader.serveAll image.source requests).run.1 =
      requests.map (replyOn image (reader.settingsOn image)) := by
  induction requests generalizing reader with
  | nil => rfl
  | cons request requests ih =>
      obtain ⟨known, hserve, hknown⟩ := reader.ask_serve image request
      have hcons : (reader.serveAll image.source (request :: requests)).run.1 =
          (image.ask (reader.serve request)).1 ::
            ((image.ask (reader.serve request)).2.serveAll image.source requests).run.1 := rfl
      rw [hcons, hserve]
      simp only
      rw [ih, hknown, List.map_cons]

end Image

/--
A session over a volume behind a front of whole blocks is told what a session over the image is
told, and the reader comes to know the same. Each reply is the one that the request is given on its
own, by the reader that began the session.
-/
theorem serveAll_eq_of_serves
    {δ : Type}
    {device : BlockDevice (StateM δ)}
    {ready : δ → Prop}
    {front image : Image}
    {start : Nat}
    (hblock : 0 < device.blockSize)
    (hfront : front.size = start * device.blockSize)
    (hwhole : device.blockSize ∣ image.size)
    (hserves : device.Serves (front ++ image) ready)
    {state : δ}
    (hready : ready state)
    (reader : Reader)
    (requests : List Request) :
    (((reader.serveAll (BlockVolume.source ⟨device, start⟩) requests).run .empty).run
          state).run.1.1 =
        (reader.serveAll image.source requests).run ∧
      (reader.serveAll image.source requests).run.1 =
        requests.map fun request => (image.ask (reader.serve request)).1 := by
  have hcarries : BlockVolume.Carries ⟨device, start⟩ image ready :=
    ⟨hblock, hwhole, front, hfront, hserves⟩
  constructor
  · obtain ⟨memory, next, hrun, -⟩ :=
      gives_serveAll (BlockVolume.answersAs_source hcarries) reader requests .empty state
        ⟨BlockMemory.trueOf_empty image device.blockSize, hready⟩
    rw [hrun]
    rfl
  · rw [serveAll_image]
    apply List.map_congr_left
    intro request _
    obtain ⟨known, hserve, -⟩ := reader.ask_serve image request
    rw [hserve]

/-- Blocks of three bytes, one of them in front of an image of two. -/
def smallDisk : Disk where
  contents := #[0, 0, 0] ++ #[10, 11, 12, 13, 14, 15]
  blockSize := 3
  claimed := none
  bad := []
  uncounted := false
  log := []

theorem serveAll_eq_of_serves_small :
    smallDisk.Sound (#[0, 0, 0] ++ #[10, 11, 12, 13, 14, 15]) 3 ∧
      (((new.serveAll (BlockVolume.source ⟨Disk.device 3, 1⟩)
          [.readAt 1 4, .detect, .readAt 2 9, .resolve "" "", .treeWith .udf]).run .empty).run
            smallDisk).run.1.1 =
        ([.bytes (.ok [11, 12, 13, 14]), .settings (.error .noFileSystem),
          .bytes (.ok [12, 13, 14, 15]), .resolved (.error (.invalidFingerprint "")),
          .tree (.error (.format .noAnchor))], new) := by
  have hsound : smallDisk.Sound (#[0, 0, 0] ++ #[10, 11, 12, 13, 14, 15]) 3 :=
    ⟨rfl, rfl, rfl, rfl, rfl⟩
  have hserves := Disk.device_serves (#[0, 0, 0] ++ #[10, 11, 12, 13, 14, 15])
    (show 0 < 3 by decide)
  have hfront : (#[0, 0, 0] : Image).size = 1 * (Disk.device 3).blockSize := by decide
  have hsession (requests : List Request) :=
    serveAll_eq_of_serves (by decide) hfront (by decide) hserves hsound new requests
  refine ⟨hsound, (hsession _).1.trans ?_⟩
  rfl

end Reader

end Optical
