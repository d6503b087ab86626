import ShoppingList.World

/-!
# What an event can do

`Outcome c e c'` lists every way an enabled event `e` can take the client `c`
to `c'`, one constructor for each branch of the handlers. A fact about steps is
proved by cases on it and opens no handler.
-/

namespace ShoppingList

inductive Outcome (c : Client) : Event → Client → Prop
  | launched : Outcome c .launch {
      running := true
      currentUser := c.currentUser
      loads := c.currentUser.toList.map fun uid => { userID := uid }
      server := c.server }
  | registered {uid : Uid} {written : Bool} (hu : c.currentUser = none) (hf : uid ∉ c.server.accounts) :
    Outcome c (.register uid written) { c with
      server := { c.server with accounts := uid :: c.server.accounts }.setData uid
        { items := [], name := uid } written
      currentUser := some uid
      loads := c.loads ++ [{ userID := uid }]
      animating := false
      group := c.group.forget }
  | loggedIn {uid : Uid} (hu : c.currentUser = none) (ha : uid ∈ c.server.accounts) :
    Outcome c (.login uid) { c with
      currentUser := some uid
      loads := c.loads ++ [{ userID := uid }]
      animating := false
      group := c.group.forget }
  | loggedOut : Outcome c (.logout true) { c with currentUser := none, itemArray := [] }
  | signOutThrew : Outcome c (.logout false) c
  | warned {form : Form} {accepted : Bool} (hn : form.name = []) :
    Outcome c (.save form accepted) { c with warning := some "Please pick a valid name" }
  | uploading {form : Form} {accepted : Bool} {image : Picture} {uid : Uid} (hn : form.name ≠ [])
    (hi : form.image = some image) (hj : image.jpegData = true) (hu : c.currentUser = some uid) :
    Outcome c (.save form accepted) { c with
      group := c.group.enter.notify
      ignoring := c.ignoring + 1
      uploads := c.uploads ++ [{
        name := form.name
        amount := form.amount
        imageName := image.imageName
        savedBy := some uid }]
      animating := !c.animating }
  | noJpeg {form : Form} {accepted : Bool} {image : Picture} (hn : form.name ≠ [])
    (hi : form.image = some image) (hj : image.jpegData = false) :
    Outcome c (.save form accepted) { c with
      group := c.group.enter.notify
      ignoring := c.ignoring + 1
      animating := !c.animating }
  | saved {form : Form} {accepted : Bool} {uid : Uid} (hn : form.name ≠ []) (hi : form.image = none)
    (hu : c.currentUser = some uid) :
    Outcome c (.save form accepted) { c with
      server := c.server.updateData uid (.arrayUnion [convertItemToString form.item]) accepted
      itemArray := c.itemArray ++ [form.item]
      ignoring := c.ignoring - 1
      group := c.group.enter.leave.notify
      animating := !c.animating }
  | deleted {row : Nat} {deleted accepted : Bool} {item : Item} {uid : Uid}
    (hr : c.itemArray[row]? = some item) (hu : c.currentUser = some uid) :
    Outcome c (.delete row deleted accepted) { c with
      itemArray := c.itemArray.eraseIdx row
      server := (if item.picture ≠ noPicture then
          c.server.deleteImage (imagesFolder ++ item.pictureName) deleted else c.server).updateData
        uid (.array ((c.itemArray.eraseIdx row).map convertItemToString)) accepted }
  | rowMissing {row : Nat} {deleted accepted : Bool} (hr : c.itemArray[row]? = none) :
    Outcome c (.delete row deleted accepted) { c with running := false }
  | answered {i : Nat} {load : Load} (hl : c.loads[i]? = some load) (ha : load.answer = none) :
    Outcome c (.answered i) { c with
      loads := c.loads.set i { load with answer := some (c.server.whereName load.userID) } }
  | loaded {i : Nat} {userID : Uid} {documents : List (Uid × UserDoc)} {read : List Item}
    (hl : c.loads[i]? = some { userID, answer := some documents })
    (hr : (documents.flatMap (·.2.items)).mapM itemOfString = some read) :
    Outcome c (.loaded i) { c with
      loads := c.loads.eraseIdx i
      itemArray := c.itemArray ++ read }
  | subscriptMissing {i : Nat} {userID : Uid} {documents : List (Uid × UserDoc)}
    (hl : c.loads[i]? = some { userID, answer := some documents })
    (hr : (documents.flatMap (·.2.items)).mapM itemOfString = none) :
    Outcome c (.loaded i) { c with running := false }
  | loadFailed {i : Nat} {load : Load} (hl : c.loads[i]? = some load) :
    Outcome c (.loadFailed i) { c with loads := c.loads.eraseIdx i }
  | imageStored {i : Nat} {upload : Upload} (hl : c.uploads[i]? = some upload) :
    Outcome c (.putData i true) { c with
      server := c.server.putImage (imagesFolder ++ upload.imageName)
      uploads := c.uploads.set i { upload with stage := .downloadURL } }
  | putDataFailed {i : Nat} {upload : Upload} (hl : c.uploads[i]? = some upload) :
    Outcome c (.putData i false) { c with uploads := c.uploads.eraseIdx i }
  | urlFailed {i : Nat} {accepted : Bool} {upload : Upload} (hl : c.uploads[i]? = some upload) :
    Outcome c (.downloadURL i none accepted) { c with uploads := c.uploads.eraseIdx i }
  | uploaded {i : Nat} {accepted : Bool} {upload : Upload} {imageLink : Text} {uid : Uid}
    (hl : c.uploads[i]? = some upload) (hu : c.currentUser = some uid) :
    Outcome c (.downloadURL i (some imageLink) accepted) { c with
      uploads := c.uploads.eraseIdx i
      server := c.server.updateData uid
        (.arrayUnion [convertItemToString (upload.item imageLink)]) accepted
      itemArray := c.itemArray ++ [upload.item imageLink]
      ignoring := c.ignoring - 1
      group := c.group.enter.leave.leave }
  | uploadOrphaned {i : Nat} {accepted : Bool} {upload : Upload} {imageLink : Text}
    (hl : c.uploads[i]? = some upload) (hu : c.currentUser = none) :
    Outcome c (.downloadURL i (some imageLink) accepted) { c with running := false }
  | notified (hq : 0 < c.group.queued) :
    Outcome c .notified { c with group := c.group.runBlock, animating := !c.animating }

namespace Event

section
variable {c : Client}

theorem save_outcome {form : Form} {accepted : Bool} (hs : c.currentUser.isSome = true) :
    Outcome c (.save form accepted) (Event.after (.save form accepted) c) := by
  obtain ⟨uid, hu⟩ := Option.isSome_iff_exists.mp hs
  by_cases hn : form.name = []
  · rw [after_of_run (.save form accepted) (saveClicked_empty_run c hn accepted)]
    exact .warned hn
  · cases hi : form.image with
    | some image =>
      rw [after_of_run (.save form accepted) (saveClicked_image_run c hn hi accepted)]
      cases hj : image.jpegData with
      | true =>
        have ho : Outcome c (.save form accepted) _ := .uploading hn hi hj hu
        rw [← hu] at ho
        exact ho
      | false => exact .noJpeg hn hi hj
    | none =>
      rw [after_of_run (.save form accepted) (saveClicked_item_run c hn hi hu accepted)]
      exact .saved hn hi hu

theorem delete_outcome {row : Nat} {deleted accepted : Bool} (hs : c.currentUser.isSome = true) :
    Outcome c (.delete row deleted accepted) (Event.after (.delete row deleted accepted) c) := by
  obtain ⟨uid, hu⟩ := Option.isSome_iff_exists.mp hs
  cases hr : c.itemArray[row]? with
  | none =>
    rw [after_of_trap (.delete row deleted accepted) (deleteRow_trap c hr deleted accepted)]
    exact .rowMissing hr
  | some item =>
    rw [after_of_run (.delete row deleted accepted) (deleteRow_run c hr hu deleted accepted)]
    exact .deleted hr hu

theorem loaded_outcome {i : Nat} (h : (Event.loaded i).enabled c = true) :
    Outcome c (.loaded i) (Event.after (.loaded i) c) := by
  simp only [enabled, Bool.and_eq_true, Option.any_eq_true] at h
  obtain ⟨-, ⟨userID, answer⟩, hl, ha⟩ := h
  obtain ⟨documents, rfl⟩ := Option.isSome_iff_exists.mp ha
  have hrun := getItemsCompleted_run c hl
  cases hr : (documents.flatMap (·.2.items)).mapM itemOfString with
  | none =>
    rw [hr] at hrun
    rw [after_of_trap (.loaded i) hrun]
    exact .subscriptMissing hl hr
  | some read =>
    rw [hr] at hrun
    rw [after_of_run (.loaded i) hrun]
    exact .loaded hl hr

theorem downloadURL_outcome {i : Nat} {url : Option Text} {accepted : Bool} {upload : Upload}
    (hl : c.uploads[i]? = some upload) :
    Outcome c (.downloadURL i url accepted) (Event.after (.downloadURL i url accepted) c) := by
  cases url with
  | none =>
    rw [after_of_run (.downloadURL i none accepted) (downloadURLCompleted_none_run c hl accepted)]
    exact .urlFailed hl
  | some imageLink =>
    cases hu : c.currentUser with
    | none =>
      rw [after_of_trap (.downloadURL i (some imageLink) accepted)
        (downloadURLCompleted_trap c hl hu imageLink accepted)]
      exact .uploadOrphaned hl hu
    | some uid =>
      rw [after_of_run (.downloadURL i (some imageLink) accepted)
        (downloadURLCompleted_some_run c hl hu imageLink accepted)]
      exact .uploaded hl hu

end

theorem outcome {c : Client} {e : Event} (h : e.enabled c = true) : Outcome c e (e.after c) := by
  cases e with
  | launch => rw [after_of_run .launch (launch_run c)]; exact .launched
  | register uid written =>
    simp only [enabled, Bool.and_eq_true, Option.isNone_iff_eq_none, Bool.not_eq_true',
      List.contains_eq_mem, decide_eq_false_iff_not] at h
    rw [after_of_run (.register uid written) (register_run c uid written)]
    exact .registered h.1.2 h.2
  | login uid =>
    simp only [enabled, Bool.and_eq_true, Option.isNone_iff_eq_none, List.contains_eq_mem,
      decide_eq_true_eq] at h
    rw [after_of_run (.login uid) (login_run c uid)]
    exact .loggedIn h.1.2 h.2
  | logout signedOut =>
    rw [after_of_run (.logout signedOut) (logoutPressed_run c signedOut)]
    cases signedOut with
    | true => exact .loggedOut
    | false => exact .signOutThrew
  | save form accepted =>
    simp only [enabled, Bool.and_eq_true] at h
    exact save_outcome h.2
  | delete row deleted accepted =>
    simp only [enabled, Bool.and_eq_true] at h
    exact delete_outcome h.2
  | answered i =>
    simp only [enabled, Bool.and_eq_true, Option.any_eq_true, Option.isNone_iff_eq_none] at h
    obtain ⟨-, load, hl, ha⟩ := h
    have hm : c.loads.modify i (fun load => { load with answer := some (c.server.whereName load.userID) }) =
        c.loads.set i { load with answer := some (c.server.whereName load.userID) } := by
      rw [List.modify_eq_set_getElem?, hl]; rfl
    have hrun : (answer i).run c = some ((), { c with
        loads := c.loads.set i { load with answer := some (c.server.whereName load.userID) } }) := by
      rw [← hm]; rfl
    rw [after_of_run (.answered i) hrun]
    exact .answered hl ha
  | loaded i => exact loaded_outcome h
  | loadFailed i =>
    simp only [enabled, Bool.and_eq_true, Option.isSome_iff_exists] at h
    obtain ⟨-, load, hl⟩ := h
    rw [after_of_run (.loadFailed i) (getItemsFailed_run c i)]
    exact .loadFailed hl
  | putData i ok =>
    simp only [enabled, Bool.and_eq_true, Option.any_eq_true] at h
    obtain ⟨-, upload, hl, -⟩ := h
    rw [after_of_run (.putData i ok) (putDataCompleted_run c hl ok)]
    cases ok with
    | true => exact .imageStored hl
    | false => exact .putDataFailed hl
  | downloadURL i url accepted =>
    simp only [enabled, Bool.and_eq_true, Option.any_eq_true] at h
    obtain ⟨-, upload, hl, -⟩ := h
    exact downloadURL_outcome hl
  | notified =>
    simp only [enabled, Bool.and_eq_true, decide_eq_true_eq] at h
    rw [after_of_run .notified (notifyBlock_run c)]
    exact .notified h.2

end Event

/-- Uploads come from saves with a picture, and change in their stage alone. -/
theorem Outcome.forall_uploads {P : Upload → Prop} {c c' : Client} {e : Event} (h : Outcome c e c')
    (hups : ∀ up ∈ c.uploads, P up) (hstage : ∀ up stage, P up → P { up with stage })
    (hnew : ∀ form accepted image uid, e = .save form accepted → form.name ≠ [] → form.image = some image →
      P { name := form.name, amount := form.amount, imageName := image.imageName, savedBy := some uid }) :
    ∀ up ∈ c'.uploads, P up := by
  intro up hm
  cases h with
  | launched => cases hm
  | uploading hn hi =>
    rcases List.mem_append.mp hm with hm | hm
    · exact hups up hm
    · rw [List.mem_singleton.mp hm]
      exact hnew _ _ _ _ rfl hn hi
  | @imageStored i upload hl =>
    rcases List.mem_or_eq_of_mem_set hm with hm | rfl
    · exact hups up hm
    · exact hstage upload .downloadURL (hups upload (List.mem_of_getElem? hl))
  | putDataFailed | urlFailed | uploaded => exact hups up (List.mem_of_mem_eraseIdx hm)
  | _ => exact hups up hm

theorem World.step_outcome {w w' : World} {d : DeviceId} {e : Event} (h : w.step (d, e) = some w') :
    ∃ c, Outcome (w.client d) e c ∧ w' = w.put d c := by
  obtain ⟨he, hw⟩ := World.step_eq_some.mp h
  exact ⟨_, Event.outcome he, hw⟩

theorem World.step_device {P : Device → Prop} {w w' : World} {d : DeviceId} {e : Event}
    (h : ∀ d, P (w.device d)) (hs : w.step (d, e) = some w')
    (hP : ∀ c, Outcome (w.client d) e c → P c.toDevice) (d' : DeviceId) : P (w'.device d') := by
  obtain ⟨c, ho, rfl⟩ := World.step_outcome hs
  by_cases hd : d' = d
  · subst hd
    rw [put_device_self]
    exact hP c ho
  · rw [put_device_ne w hd]
    exact h d'

end ShoppingList
