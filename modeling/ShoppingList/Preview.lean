import ShoppingList.Controllers
import ShoppingList.Lib.Runs

/-!
# The picture on the Add Item screen

The picture the user has picked is held three times, as a flag, as the selected
image and as the preview. A save reads the flag and the image, the user sees the
preview. Cancelling the picker resets the flag alone.
-/

namespace ShoppingList

/-- `none` stands for the blank `UIImage()`. -/
structure AddItemScreen (Image : Type) where
  name : Text := []
  amount : Text := []
  selectedImage : Option Image := none
  isImageSelected : Bool := false
  preview : Option Image := none

namespace AddItemScreen

variable {Image : Type}

inductive Event (Image : Type) where
  | typed (name amount : Text)
  /-- The photo library is opened, or is not available. -/
  | loadPictureClicked (available : Bool)
  /-- The picker is done, with the original image or without one. -/
  | picked (originalImage : Option Image)
  | cancelled
  | saveClicked

/-- What a save calls: `uploadImage` with an image, or `addItemWithoutImage`. -/
def saving (s : AddItemScreen Image) : Option (Option Image) :=
  if s.isImageSelected then some s.selectedImage else none

def form (jpegData : Image → Bool) (imageName : Text) (s : AddItemScreen Image) : Form :=
  { name := s.name, amount := s.amount
    image := s.saving.map fun image => { imageName, jpegData := image.any jpegData } }

def handle (s : AddItemScreen Image) : Event Image → AddItemScreen Image
  | .typed name amount => { s with name, amount }
  | .loadPictureClicked _ => s
  | .picked (some pickedImage) =>
    { s with selectedImage := some pickedImage, isImageSelected := true, preview := some pickedImage }
  | .picked none => s
  | .cancelled => { s with isImageSelected := false }
  | .saveClicked => if s.name.isEmpty then s else {}

def step (s : AddItemScreen Image) (e : Event Image) : Option (AddItemScreen Image) := some (s.handle e)

/-- A picture is shown exactly when the flag is set, and then it is the selected one. -/
structure Consistent (s : AddItemScreen Image) : Prop where
  flag : s.preview.isSome = s.isImageSelected
  image : s.isImageSelected = true → s.preview = s.selectedImage

theorem consistent_initial : Consistent ({} : AddItemScreen Image) := ⟨rfl, nofun⟩

theorem Consistent.saving {s : AddItemScreen Image} (h : Consistent s) : s.saving = s.preview.map some := by
  unfold AddItemScreen.saving
  cases hs : s.isImageSelected with
  | false =>
    have hp : s.preview = none := by simpa [hs] using h.flag
    rw [hp]
    rfl
  | true =>
    obtain ⟨image, hp⟩ : ∃ image, s.preview = some image := by
      rw [← Option.isSome_iff_exists, h.flag, hs]
    rw [← h.image hs, hp]
    rfl

def KeepsPicture (s : AddItemScreen Image) (e : Event Image) : Prop := e = .cancelled → s.preview = none

theorem Consistent.handle_iff {s : AddItemScreen Image} (h : Consistent s) (e : Event Image) :
    Consistent (s.handle e) ↔ KeepsPicture s e := by
  cases e with
  | typed name amount => exact iff_of_true ⟨h.flag, h.image⟩ nofun
  | loadPictureClicked => exact iff_of_true h nofun
  | picked originalImage =>
    cases originalImage with
    | none => exact iff_of_true h nofun
    | some image => exact iff_of_true ⟨rfl, fun _ => rfl⟩ nofun
  | cancelled =>
    refine ⟨?_, ?_⟩
    · intro hc _
      exact Option.isNone_iff_eq_none.mp (by simpa [handle] using hc.flag)
    · intro hk
      refine ⟨?_, nofun⟩
      change s.preview.isSome = false
      rw [hk rfl]
      rfl
  | saveClicked =>
    refine iff_of_true ?_ nofun
    simp only [handle]
    split
    · exact h
    · exact consistent_initial

/-- **What the Add Item screen previews is what it saves**, over every run,
exactly while the picker is never cancelled with a picture shown. -/
theorem consistent_iff_keepsPicture (es : List (Event Image)) :
    Runs.Along step (fun s e s' => Consistent s' ∧ (e = .saveClicked → s.saving = s.preview.map some))
        ({} : AddItemScreen Image) es ↔
      Runs.Along step (fun s e _ => KeepsPicture s e) ({} : AddItemScreen Image) es := by
  refine Runs.Along.iff_of_step (I := Consistent) (C := fun _ _ _ => True) ?_ ?_ consistent_initial
    (Runs.Along.of_forall _ fun _ _ => trivial)
  · rintro s e s' hi - ⟨⟩
    rw [hi.handle_iff e]
    exact and_iff_left fun _ => hi.saving
  · intro s e s' _ _ hr _
    exact hr.1

/-! ## The tap on Save -/

/-- What the app does at the tap, with what the screen holds, and what is then left
of the screen. -/
theorem saveClicked_form (s : AddItemScreen Image) (jpegData : Image → Bool) (imageName : Text) (accepted : Bool) :
    let form := s.form jpegData imageName
    (s.name = [] → s.handle .saveClicked = s ∧
      ShoppingList.saveClicked form accepted = showWarning "Please pick a valid name") ∧
    (s.name ≠ [] → s.handle .saveClicked = {} ∧ ShoppingList.saveClicked form accepted = do
      s.saving.elim (addItemWithoutImage form accepted) fun image =>
        uploadImage { imageName, jpegData := image.any jpegData } form
      startStopActivityIndicator) := by
  intro form
  refine ⟨fun hn => ?_, fun hn => ?_⟩
  · have he : form.name.isEmpty = true := List.isEmpty_iff.mpr hn
    refine ⟨if_pos he, ?_⟩
    unfold ShoppingList.saveClicked
    rw [he]
    rfl
  · have he : form.name.isEmpty = false := List.isEmpty_eq_false_iff.mpr hn
    refine ⟨if_neg (Bool.not_eq_true _ ▸ he), ?_⟩
    have hi : form.image = s.saving.map fun image => { imageName, jpegData := image.any jpegData } := rfl
    unfold ShoppingList.saveClicked
    rw [he, hi]
    cases s.saving with
    | none => rfl
    | some image => rfl

/-- The picture that is uploaded is the one that is shown. -/
theorem Consistent.uploads_preview {s : AddItemScreen Image} (h : Consistent s) (hn : s.name ≠ []) {image : Image}
    (hp : s.preview = some image) (jpegData : Image → Bool) (imageName : Text) (accepted : Bool) :
    ShoppingList.saveClicked (s.form jpegData imageName) accepted = (do
      uploadImage { imageName, jpegData := jpegData image } (s.form jpegData imageName)
      startStopActivityIndicator) := by
  rw [((saveClicked_form s jpegData imageName accepted).2 hn).2, h.saving, hp]
  rfl

/-- Without a preview no picture is uploaded. -/
theorem Consistent.uploads_nothing {s : AddItemScreen Image} (h : Consistent s) (hn : s.name ≠ [])
    (hp : s.preview = none) (jpegData : Image → Bool) (imageName : Text) (accepted : Bool) :
    ShoppingList.saveClicked (s.form jpegData imageName) accepted = (do
      addItemWithoutImage (s.form jpegData imageName) accepted
      startStopActivityIndicator) := by
  rw [((saveClicked_form s jpegData imageName accepted).2 hn).2, h.saving, hp]
  rfl

/-- The second visit to the picker is cancelled: the first picture is still
shown, and the item is saved without it. -/
theorem cancelled_visit : ∃ s : AddItemScreen Nat,
    Runs.run step {} [.typed ['x'] ['1'], .loadPictureClicked true, .picked (some 7), .loadPictureClicked true,
      .cancelled] = some s ∧
    s.preview = some 7 ∧ s.saving = none ∧ ¬Consistent s := by
  refine ⟨_, rfl, rfl, rfl, fun h => ?_⟩
  cases h.flag

end AddItemScreen

end ShoppingList
