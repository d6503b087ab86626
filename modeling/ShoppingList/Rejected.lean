import ShoppingList.Agreement

/-!
# Rejected writes

No code reads the outcome of an `updateData`. A rejected one leaves the
collection as it is, while the list and Storage are changed as if it had been
accepted. Of a save with a picture only the last of its three steps changes the
list or issues an `updateData`.
-/

namespace ShoppingList

@[simp] theorem Server.updateData_rejected (s : Server) (uid : Uid) (v : FieldValue) :
    s.updateData uid v false = s := rfl

/-- The stored pictures after a delete of `item`'s row. -/
def imagesAfterDelete (item : Item) (deleted : Bool) (images : List Text) : List Text :=
  if item.picture ≠ noPicture ∧ deleted = true then images.erase (imagesFolder ++ item.pictureName)
  else images

section
variable {c c' : Client}

theorem Outcome.save_rejected {form : Form} (h : Outcome c (.save form false) c') (hn : form.name ≠ [])
    (hi : form.image = none) : c'.server = c.server ∧ c'.itemArray = c.itemArray ++ [form.item] := by
  cases h with
  | warned hn' => exact absurd hn' hn
  | uploading _ hi' | noJpeg _ hi' => rw [hi] at hi'; cases hi'
  | saved => exact ⟨Server.updateData_rejected .., rfl⟩

theorem Outcome.save_image {form : Form} {accepted : Bool} (h : Outcome c (.save form accepted) c')
    (hi : form.image.isSome = true) : c'.server = c.server ∧ c'.itemArray = c.itemArray := by
  cases h with
  | warned | uploading | noJpeg => exact ⟨rfl, rfl⟩
  | saved _ hi' => rw [hi'] at hi; cases hi

theorem Outcome.putData_users {i : Nat} {ok : Bool} (h : Outcome c (.putData i ok) c') :
    c'.server.users = c.server.users ∧ c'.itemArray = c.itemArray := by
  cases h with
  | imageStored | putDataFailed => exact ⟨rfl, rfl⟩

theorem Outcome.downloadURL_rejected {i : Nat} {imageLink : Text} {upload : Upload}
    (h : Outcome c (.downloadURL i (some imageLink) false) c') (hl : c.uploads[i]? = some upload)
    (hu : c.currentUser.isSome = true) :
    c'.server = c.server ∧ c'.itemArray = c.itemArray ++ [upload.item imageLink] := by
  cases h with
  | uploaded hl' =>
    rw [hl, Option.some.injEq] at hl'
    subst hl'
    exact ⟨Server.updateData_rejected .., rfl⟩
  | uploadOrphaned _ hu' => rw [hu'] at hu; cases hu

theorem Outcome.delete_rejected {row : Nat} {deleted : Bool} {item : Item}
    (h : Outcome c (.delete row deleted false) c') (hr : c.itemArray[row]? = some item) :
    c'.server.users = c.server.users ∧ c'.itemArray = c.itemArray.eraseIdx row ∧
      c'.server.images = imagesAfterDelete item deleted c.server.images := by
  cases h with
  | rowMissing hr' => rw [hr] at hr'; cases hr'
  | deleted hr' =>
    rw [hr, Option.some.injEq] at hr'
    subst hr'
    rw [Server.updateData_rejected]
    unfold imagesAfterDelete
    by_cases hp : item.picture = noPicture
    · simp [hp]
    · simp [hp, Server.deleteImage]

end

/-- **A rejected write changes the list and Storage all the same.** At every save
and delete whose `updateData` is rejected the collection stays as it was; the
saved item is in the list, or the row is gone from it and its picture from
Storage. What a save with a picture does before its `updateData` changes neither
the collection nor the list. -/
theorem rejected_write (w w' : World) (d : DeviceId) (hu : (w.device d).currentUser.isSome = true) :
    (∀ form, form.name ≠ [] → form.image = none → w.step (d, .save form false) = some w' →
      w'.server = w.server ∧ (w'.device d).itemArray = (w.device d).itemArray ++ [form.item]) ∧
    (∀ form accepted, form.image.isSome = true → w.step (d, .save form accepted) = some w' →
      w'.server = w.server ∧ (w'.device d).itemArray = (w.device d).itemArray) ∧
    (∀ i ok, w.step (d, .putData i ok) = some w' →
      w'.server.users = w.server.users ∧ (w'.device d).itemArray = (w.device d).itemArray) ∧
    (∀ i imageLink upload, (w.device d).uploads[i]? = some upload →
      w.step (d, .downloadURL i (some imageLink) false) = some w' →
        w'.server = w.server ∧ (w'.device d).itemArray = (w.device d).itemArray ++ [upload.item imageLink]) ∧
    (∀ row deleted item, (w.device d).itemArray[row]? = some item →
      w.step (d, .delete row deleted false) = some w' →
        w'.server.users = w.server.users ∧ (w'.device d).itemArray = (w.device d).itemArray.eraseIdx row ∧
          w'.server.images = imagesAfterDelete item deleted w.server.images) := by
  have hstep : ∀ e, w.step (d, e) = some w' → ∃ c, Outcome (w.client d) e c ∧ w'.server = c.server ∧
      (w'.device d).itemArray = c.itemArray := by
    intro e hs
    obtain ⟨c, ho, rfl⟩ := World.step_outcome hs
    exact ⟨c, ho, rfl, by rw [World.put_device_self]⟩
  refine ⟨fun form hn hi hs => ?_, fun form accepted hi hs => ?_, fun i ok hs => ?_,
    fun i imageLink upload hl hs => ?_, fun row deleted item hr hs => ?_⟩
  all_goals
    obtain ⟨c, ho, hserver, hrows⟩ := hstep _ hs
    rw [hserver, hrows]
  · exact ho.save_rejected hn hi
  · exact ho.save_image hi
  · exact ho.putData_users
  · exact ho.downloadURL_rejected hl hu
  · exact ho.delete_rejected hr

def oneItem : List (DeviceId × Event) :=
  signedIn ++ [(0, .save ⟨['x'], ['1'], some ⟨['n'], true⟩⟩ true), (0, .putData 0 true),
    (0, .downloadURL 0 (some ['l']) true)]

def refusedSave : DeviceId × Event := (0, .save ⟨['y'], ['2'], none⟩ false)

def refusedDelete : DeviceId × Event := (0, .delete 0 true false)

/-- List and array agree; the refused save adds a row that is not stored, the
refused delete takes away the row and the picture of an item that still is. -/
theorem refused_not_undone : ∃ w, Runs.run World.step {} oneItem = some w ∧
    Matches w.server.users ['u'] (w.device 0).itemArray ∧ (w.device 0).itemArray.length = 1 ∧
    w.server.images = [imagesFolder ++ ['n']] ∧
    (∃ w', w.step refusedSave = some w' ∧ (w'.device 0).itemArray.length = 2 ∧
      ¬Matches w'.server.users ['u'] (w'.device 0).itemArray) ∧
    (∃ w', w.step refusedDelete = some w' ∧ (w'.device 0).itemArray = [] ∧ w'.server.images = [] ∧
      ¬Matches w'.server.users ['u'] (w'.device 0).itemArray) := by decide

theorem rejected_write_refused : ∃ w, Runs.run World.step {} oneItem = some w ∧
    (∃ w', w.step refusedSave = some w' ∧ w'.server = w.server ∧
      (w'.device 0).itemArray = (w.device 0).itemArray ++ [⟨['y'], ['2'], noPicture, noPicture⟩]) ∧
    (∃ w', w.step refusedDelete = some w' ∧ w'.server.users = w.server.users ∧
      (w'.device 0).itemArray = (w.device 0).itemArray.eraseIdx 0) := by
  obtain ⟨w, hw, hu, ⟨w₁, hsave, -⟩, ⟨w₂, hdelete, -⟩, item, hrow, -⟩ : ∃ w,
      Runs.run World.step {} oneItem = some w ∧ (w.device 0).currentUser.isSome = true ∧
      (∃ w', w.step refusedSave = some w' ∧ (w'.device 0).running = true) ∧
      (∃ w', w.step refusedDelete = some w' ∧ (w'.device 0).running = true) ∧
      ∃ item, (w.device 0).itemArray[0]? = some item ∧ item.picture = ['l'] := by decide
  obtain ⟨hserver, hrows⟩ := (rejected_write w w₁ 0 hu).1 _ (by decide) rfl hsave
  obtain ⟨husers, hrows', -⟩ := (rejected_write w w₂ 0 hu).2.2.2.2 0 true item hrow hdelete
  exact ⟨w, hw, ⟨w₁, hsave, hserver, hrows⟩, w₂, hdelete, husers, hrows'⟩

end ShoppingList
