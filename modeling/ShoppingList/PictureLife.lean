import ShoppingList.Agreement
import ShoppingList.Pictures
import ShoppingList.Lib.Places

/-!
# The life of a picture

A picture is sent, stored, named in an item and deleted, each by a request that
can fail alone. `life` records where every picture of the user is. The items,
the uploads and the images folder are read off that record in every state, which
says exactly which pictures are left without an item.
-/

namespace ShoppingList

/-- Where a picture of the user is; `unknown` for every other name. -/
inductive Place where
  | unknown
  | sending
  | uploaded
  | listed
  /-- Stored with no item: its link could not be had, or its deletion failed. -/
  | abandoned
  | gone
  deriving DecidableEq, Repr

namespace Place

def stored : Place → Prop
  | uploaded | listed | abandoned => True
  | _ => False

/-- A row or an upload has its name. -/
def held : Place → Prop
  | sending | uploaded | listed => True
  | _ => False

end Place

def Stage.place : Stage → Place
  | .putData => .sending
  | .downloadURL => .uploaded

/-- The picture whose place the event changes, and the new place. -/
def Event.moved (c : Client) : Event → Option (Text × Place)
  | .save form _ =>
    match form.image with
    | some image => if form.name ≠ [] ∧ image.jpegData = true then some (image.imageName, .sending) else none
    | none => none
  | .putData i ok => c.uploads[i]?.map fun up => (up.imageName, if ok then .uploaded else .gone)
  | .downloadURL i url _ => c.uploads[i]?.map fun up => (up.imageName, if url.isSome then .listed else .abandoned)
  | .delete row deleted _ =>
    match c.itemArray[row]? with
    | some item =>
      if item.picture ≠ noPicture then some (item.pictureName, if deleted then .gone else .abandoned) else none
    | none => none
  | _ => none

def Event.relocate (c : Client) (e : Event) (place : Text → Place) : Text → Place :=
  match e.moved c with
  | some (imageName, b) => Function.update place imageName b
  | none => place

def life (w : World) (de : DeviceId × Event) (_ : World) (place : Text → Place) : Text → Place :=
  de.2.relocate (w.client de.1) place

/-! ## Names of pictures -/

def pictureNames (items : List Item) : List Text :=
  (items.filter fun item => item.picture ≠ noPicture).map (·.pictureName)

def storedNames (vals : List Text) : List Text := pictureNames (vals.filterMap itemOfString)

section
variable {item : Item} {items items' : List Item} {vals : List Text}

theorem pictureNames_append : pictureNames (items ++ items') = pictureNames items ++ pictureNames items' := by
  unfold pictureNames
  rw [List.filter_append, List.map_append]

theorem pictureNames_unpictured (h : item.picture = noPicture) : pictureNames [item] = [] := by
  simp [pictureNames, h]

theorem pictureNames_pictured (h : item.picture ≠ noPicture) : pictureNames [item] = [item.pictureName] := by
  simp [pictureNames, h]

theorem pictureNames_row {row : Nat} (h : items[row]? = some item) :
    (pictureNames items).Perm (pictureNames [item] ++ pictureNames (items.eraseIdx row)) := by
  rw [← pictureNames_append, List.singleton_append]
  exact ((Lists.perm_cons_eraseIdx h).filter _).map _

theorem storedNames_convert (h : ∀ item ∈ items, item.Plain) :
    storedNames (items.map convertItemToString) = pictureNames items := by
  unfold storedNames
  rw [List.filterMap_map]
  congr 1
  induction items with
  | nil => rfl
  | cons item items ih =>
    rw [List.forall_mem_cons] at h
    rw [List.filterMap_cons, Function.comp_apply, itemOfString_convert h.1, ih h.2]

theorem storedNames_addAbsent (h : item.Plain)
    (hnew : item.picture ≠ noPicture → item.pictureName ∉ storedNames vals) :
    storedNames (Ledger.addAbsent vals (convertItemToString item)) =
      storedNames vals ++ pictureNames [item] := by
  by_cases hm : convertItemToString item ∈ vals
  · rw [Ledger.addAbsent_of_mem hm]
    by_cases hp : item.picture = noPicture
    · rw [pictureNames_unpictured hp, List.append_nil]
    · -- a stored string with a picture would have its name among the stored ones
      have hread : item ∈ vals.filterMap itemOfString :=
        List.mem_filterMap.mpr ⟨_, hm, itemOfString_convert h⟩
      refine absurd (List.mem_map_of_mem (List.mem_filter.mpr ⟨hread, ?_⟩)) (hnew hp)
      exact decide_eq_true hp
  · rw [Ledger.addAbsent_of_not_mem hm]
    unfold storedNames
    rw [List.filterMap_append, pictureNames_append, List.filterMap_cons, itemOfString_convert h]
    rfl

end

/-! ## What names a picture -/

def entries (rows : List Item) (uploads : List Upload) : List (Text × Place) :=
  (pictureNames rows).map (fun imageName => (imageName, .listed)) ++
    uploads.map fun up => (up.imageName, up.stage.place)

section
variable {rows : List Item} {uploads : List Upload} {item : Item} {up : Upload} {row i : Nat}

theorem entries_append_row : entries (rows ++ [item]) uploads =
    (pictureNames rows).map (fun imageName => (imageName, Place.listed)) ++
      ((pictureNames [item]).map (fun imageName => (imageName, Place.listed)) ++
        uploads.map fun up => (up.imageName, up.stage.place)) := by
  unfold entries
  rw [pictureNames_append, List.map_append, List.append_assoc]

theorem entries_put_unpictured (h : item.picture = noPicture) :
    entries (rows ++ [item]) uploads = entries rows uploads := by
  rw [entries_append_row, pictureNames_unpictured h]
  rfl

theorem entries_put_pictured (h : item.picture ≠ noPicture) :
    ((item.pictureName, .listed) :: entries rows uploads).Perm (entries (rows ++ [item]) uploads) := by
  rw [entries_append_row, pictureNames_pictured h]
  exact List.perm_middle.symm

theorem entries_row (h : rows[row]? = some item) : (entries rows uploads).Perm
    ((pictureNames [item]).map (fun imageName => (imageName, Place.listed)) ++
      entries (rows.eraseIdx row) uploads) := by
  unfold entries
  rw [← List.append_assoc, ← List.map_append]
  exact ((pictureNames_row h).map _).append_right _

theorem entries_row_pictured (h : rows[row]? = some item) (hp : item.picture ≠ noPicture) :
    (entries rows uploads).Perm ((item.pictureName, .listed) :: entries (rows.eraseIdx row) uploads) := by
  refine (entries_row h).trans ?_
  rw [pictureNames_pictured hp]
  rfl

theorem entries_row_unpictured (h : rows[row]? = some item) (hp : item.picture = noPicture) :
    (entries rows uploads).Perm (entries (rows.eraseIdx row) uploads) := by
  refine (entries_row h).trans ?_
  rw [pictureNames_unpictured hp]
  rfl

theorem entries_upload (h : uploads[i]? = some up) : (entries rows uploads).Perm
    ((up.imageName, up.stage.place) :: entries rows (uploads.eraseIdx i)) := by
  refine (((Lists.perm_cons_eraseIdx h).map _).append_left _).trans ?_
  exact List.perm_middle

theorem entries_set_upload (h : uploads[i]? = some up) (up' : Upload) :
    ((up'.imageName, up'.stage.place) :: entries rows (uploads.eraseIdx i)).Perm
      (entries rows (uploads.set i up')) := by
  have hlt : i < uploads.length := (List.getElem?_eq_some_iff.mp h).1
  refine List.Perm.trans ?_ (((List.set_perm_cons_eraseIdx hlt up').map _).append_left _).symm
  exact List.perm_middle.symm

theorem entries_send (up : Upload) : ((up.imageName, up.stage.place) :: entries rows uploads).Perm
    (entries rows (uploads ++ [up])) := by
  unfold entries
  rw [List.map_append, ← List.append_assoc]
  exact (List.perm_append_singleton _ _).symm

end

/-! ## One step -/

/-- Rows, uploads and the images folder are what `place` says. -/
structure Shelved (place : Text → Place) (c : Client) : Prop where
  books : Places.Books Place.held place (entries c.itemArray c.uploads)
  images : Places.Reflects (· ≠ .unknown) Place.stored place fun imageName =>
    imagesFolder ++ imageName ∈ c.server.images
  nodup : c.server.images.Nodup

theorem imagesFolder_append_inj {imageName imageName' : Text} :
    imagesFolder ++ imageName = imagesFolder ++ imageName' ↔ imageName = imageName' :=
  List.append_right_inj imagesFolder

namespace Event

variable {c : Client} {place : Text → Place} {i : Nat} {up : Upload}

theorem relocate_of_moved {e : Event} {imageName : Text} {b : Place} (h : e.moved c = some (imageName, b)) :
    e.relocate c place = Function.update place imageName b := by
  rw [relocate, h]

theorem relocate_of_not_moved {e : Event} (h : e.moved c = none) : e.relocate c place = place := by
  rw [relocate, h]

theorem putData_stage {ok : Bool} (h : (Event.putData i ok).enabled c = true) (hl : c.uploads[i]? = some up) :
    up.stage = .putData := by
  simpa [enabled, hl] using (Bool.and_eq_true_iff.mp h).2

theorem downloadURL_stage {url : Option Text} {accepted : Bool}
    (h : (Event.downloadURL i url accepted).enabled c = true) (hl : c.uploads[i]? = some up) :
    up.stage = .downloadURL := by
  simpa [enabled, hl] using (Bool.and_eq_true_iff.mp h).2

end Event

namespace Shelved

variable {place : Text → Place} {c c' : Client} {i row : Nat} {up : Upload} {item : Item}

theorem place_upload (h : Shelved place c) (hl : c.uploads[i]? = some up) :
    place up.imageName = up.stage.place :=
  (h.books.perm (entries_upload hl)).place_eq

theorem place_row (h : Shelved place c) (hr : c.itemArray[row]? = some item) (hp : item.picture ≠ noPicture) :
    place item.pictureName = .listed :=
  (h.books.perm (entries_row_pictured hr hp)).place_eq

theorem keep (h : Shelved place c) (himages : c'.server.images = c.server.images)
    (hentries : (entries c.itemArray c.uploads).Perm (entries c'.itemArray c'.uploads)) : Shelved place c' where
  books := h.books.perm hentries
  images := by
    rw [himages]
    exact h.images
  nodup := himages ▸ h.nodup

theorem relabel {imageName : Text} {b : Place} (h : Shelved place c)
    (himages : c'.server.images = c.server.images) (hk : place imageName ≠ .unknown)
    (hb : (place imageName).stored ↔ b.stored)
    (hbooks : Places.Books Place.held (Function.update place imageName b) (entries c'.itemArray c'.uploads)) :
    Shelved (Function.update place imageName b) c' where
  books := hbooks
  images := by
    rw [himages]
    exact h.images.relabel hk hb
  nodup := himages ▸ h.nodup

theorem send (h : Shelved place c) (hn : place up.imageName = .unknown)
    (hfree : imagesFolder ++ up.imageName ∉ c.server.images) (hst : up.stage = .putData) :
    Shelved (Function.update place up.imageName .sending) { c with uploads := c.uploads ++ [up] } where
  books := by
    have hheld : ¬(place up.imageName).held := by
      rw [hn]
      exact id
    have hbooks := h.books.add (b := Place.sending) hheld trivial
    have hperm : ((up.imageName, up.stage.place) :: entries c.itemArray c.uploads).Perm _ := entries_send up
    rw [hst] at hperm
    exact hbooks.perm hperm
  images := h.images.move (fun _ _ => Iff.rfl) (iff_of_false hfree id)
  nodup := h.nodup

theorem store (h : Shelved place c) (hl : c.uploads[i]? = some up) :
    Shelved (Function.update place up.imageName .uploaded) { c with
      server := c.server.putImage (imagesFolder ++ up.imageName)
      uploads := c.uploads.set i { up with stage := .downloadURL } } where
  books := ((h.books.perm (entries_upload hl)).move (c := Place.uploaded) trivial).perm
    (entries_set_upload hl { up with stage := .downloadURL })
  images := by
    refine h.images.move (fun imageName hne => ?_) (iff_of_true ?_ trivial)
    · rw [Server.putImage, Ledger.mem_addAbsent, imagesFolder_append_inj]
      exact or_iff_left hne
    · exact Ledger.mem_addAbsent.mpr (Or.inr rfl)
  nodup := Ledger.nodup_addAbsent h.nodup _

theorem giveUp {b : Place} (h : Shelved place c) (hl : c.uploads[i]? = some up) (hb : ¬b.held)
    (hstored : up.stage.place.stored ↔ b.stored) :
    Shelved (Function.update place up.imageName b) { c with uploads := c.uploads.eraseIdx i } := by
  have hplace := h.place_upload hl
  refine h.relabel rfl ?_ (hplace ▸ hstored) ((h.books.perm (entries_upload hl)).drop hb)
  rw [hplace]
  cases up.stage <;> nofun

theorem delete {deleted : Bool} (h : Shelved place c) (hr : c.itemArray[row]? = some item)
    (hp : item.picture ≠ noPicture) (v : FieldValue) (uid : Uid) (accepted : Bool) :
    Shelved (Function.update place item.pictureName (if deleted then .gone else .abandoned)) { c with
      itemArray := c.itemArray.eraseIdx row
      server := (c.server.deleteImage (imagesFolder ++ item.pictureName) deleted).updateData uid v accepted } := by
  have hplace := h.place_row hr hp
  have hdrop := fun (b : Place) (hb : ¬b.held) => (h.books.perm (entries_row_pictured hr hp)).drop hb
  cases deleted with
  | false =>
    refine h.relabel rfl ?_ ?_ (hdrop .abandoned id) <;> rw [hplace]
    · nofun
    · exact Iff.rfl
  | true =>
    refine ⟨hdrop .gone id, h.images.move (fun imageName hne => ?_) (iff_of_false ?_ id), h.nodup.erase _⟩
    · exact List.mem_erase_of_ne fun he => hne (imagesFolder_append_inj.mp he)
    · exact h.nodup.not_mem_erase

theorem step {e : Event} {uid : Uid} (h : Shelved place c) (ho : Outcome c e c') (hen : e.enabled c = true)
    (he : e.edits = true) (hlink : e.Linked) (hu : c.currentUser = some uid)
    (hfresh : ∀ imageName, e.moved c = some (imageName, .sending) →
      place imageName = .unknown ∧ imagesFolder ++ imageName ∉ c.server.images) :
    Shelved (e.relocate c place) c' := by
  cases ho with
  | @warned form accepted hn =>
    have hmoved : (Event.save form accepted).moved c = none := by
      simp only [Event.moved, hn]
      split <;> rfl
    rw [Event.relocate_of_not_moved hmoved]
    exact h.keep rfl (.refl _)
  | @uploading form accepted image uid hn hi hj =>
    have hmoved : (Event.save form accepted).moved c = some (image.imageName, .sending) := by
      simp [Event.moved, hi, hn, hj]
    obtain ⟨hn, hfree⟩ := hfresh _ hmoved
    rw [Event.relocate_of_moved hmoved]
    let up : Upload :=
      { name := form.name, amount := form.amount, imageName := image.imageName, savedBy := some uid }
    have hsent : Shelved (Function.update place up.imageName .sending) _ := h.send hn hfree rfl
    exact hsent.keep rfl (.refl _)
  | noJpeg hn hi hj =>
    rw [Event.relocate_of_not_moved (by simp [Event.moved, hi, hj])]
    exact h.keep rfl (.refl _)
  | saved hn hi =>
    rw [Event.relocate_of_not_moved (by simp [Event.moved, hi])]
    refine h.keep rfl ?_
    rw [entries_put_unpictured rfl]
  | @deleted row deleted accepted item uid hr =>
    by_cases hp : item.picture = noPicture
    · rw [Event.relocate_of_not_moved (by simp [Event.moved, hr, hp])]
      refine h.keep ?_ (entries_row_unpictured hr hp)
      rw [if_neg (not_not.mpr hp)]
      rfl
    · have hmoved : (Event.delete row deleted accepted).moved c =
          some (item.pictureName, if deleted then .gone else .abandoned) := by
        simp [Event.moved, hr, hp]
      rw [Event.relocate_of_moved hmoved, if_pos hp]
      exact h.delete hr hp _ _ _
  | rowMissing hr =>
    rw [Event.relocate_of_not_moved (by simp [Event.moved, hr])]
    exact h.keep rfl (.refl _)
  | @imageStored i up hl =>
    have hmoved : (Event.putData i true).moved c = some (up.imageName, .uploaded) := by simp [Event.moved, hl]
    rw [Event.relocate_of_moved hmoved]
    exact h.store hl
  | @putDataFailed i up hl =>
    have hmoved : (Event.putData i false).moved c = some (up.imageName, .gone) := by simp [Event.moved, hl]
    rw [Event.relocate_of_moved hmoved]
    refine h.giveUp hl id ?_
    rw [Event.putData_stage hen hl]
    exact Iff.rfl
  | @urlFailed i accepted up hl =>
    have hmoved : (Event.downloadURL i none accepted).moved c = some (up.imageName, .abandoned) := by
      simp [Event.moved, hl]
    rw [Event.relocate_of_moved hmoved]
    refine h.giveUp hl id ?_
    rw [Event.downloadURL_stage hen hl]
    exact Iff.rfl
  | @uploaded i accepted up imageLink uid hl =>
    have hplace := h.place_upload hl
    rw [Event.downloadURL_stage hen hl] at hplace
    have hmoved : (Event.downloadURL i (some imageLink) accepted).moved c = some (up.imageName, .listed) := by
      simp [Event.moved, hl]
    rw [Event.relocate_of_moved hmoved]
    refine h.relabel rfl ?_ ?_ ?_
    · rw [hplace]; nofun
    · rw [hplace]; exact Iff.rfl
    · have hp : (up.item imageLink).picture ≠ noPicture := fun hno => hlink (congrArg some hno)
      exact ((h.books.perm (entries_upload hl)).move (c := Place.listed) trivial).perm (entries_put_pictured hp)
  | uploadOrphaned hl hn => cases hn.symm.trans hu
  | notified =>
    rw [Event.relocate_of_not_moved rfl]
    exact h.keep rfl (.refl _)
  | _ => cases he

end Shelved

/-! ## The stored names -/

theorem mem_pictureNames {place : Text → Place} {c : Client} (h : Shelved place c) (imageName : Text) :
    imageName ∈ pictureNames c.itemArray ↔ place imageName = .listed := by
  have hm := h.books.mem imageName .listed
  rw [entries, List.mem_append] at hm
  refine Iff.trans ?_ (hm.trans (and_iff_left trivial))
  refine ⟨fun hn => Or.inl (List.mem_map_of_mem hn), fun hn => ?_⟩
  rcases hn with hn | hn
  · obtain ⟨imageName', hm', he⟩ := List.mem_map.mp hn
    cases he
    exact hm'
  · obtain ⟨up, -, he⟩ := List.mem_map.mp hn
    have hstage := congrArg Prod.snd he
    cases hup : up.stage <;> rw [hup] at hstage <;> cases hstage

theorem nodup_pictureNames {place : Text → Place} {c : Client} (h : Shelved place c) :
    (pictureNames c.itemArray).Nodup :=
  (List.nodup_append.mp h.books.nodup).1.of_map _

theorem not_uploaded {place : Text → Place} {c : Client} (h : Shelved place c) (hu : c.uploads = [])
    (imageName : Text) : place imageName ≠ .uploaded := by
  intro hplace
  have hm := (h.books.mem imageName .uploaded).mpr ⟨hplace, trivial⟩
  rw [entries, hu, List.map_nil, List.append_nil, List.mem_map] at hm
  obtain ⟨_, -, ⟨⟩⟩ := hm

theorem names_edit {users : Collection Uid UserDoc} {uid : Uid} {rows : List Item} {vals : List Text}
    {eff : Effect} (he : eff.Edits uid) (hv : itemsOf users uid = some vals)
    (hn : storedNames vals = pictureNames rows)
    (hrows : ∀ item ∈ rows, item.Plain)
    (hsent : ∀ item ∈ eff.sent, item.Plain ∧
      (item.picture ≠ noPicture → item.pictureName ∉ pictureNames rows)) :
    ∃ vals', itemsOf (eff.collection rows users) uid = some vals' ∧
      storedNames vals' = pictureNames (eff.list rows) := by
  cases eff with
  | keep => exact ⟨vals, hv, hn⟩
  | put uid' item upload accepted =>
    obtain ⟨rfl, rfl⟩ := he
    obtain ⟨hplain, hnew⟩ := hsent item rfl
    rw [← hn] at hnew
    refine ⟨_, ?_, (storedNames_addAbsent hplain hnew).trans ?_⟩
    · rw [Effect.collection, itemsOf_updateItems_self, hv]
      rfl
    · rw [hn, Effect.list, pictureNames_append]
  | remove uid' row accepted =>
    obtain ⟨rfl, rfl⟩ := he
    refine ⟨(rows.eraseIdx row).map convertItemToString, ?_, storedNames_convert ?_⟩
    · rw [Effect.collection, itemsOf_updateItems_self, hv]
      rfl
    · exact fun item hm => hrows item (List.mem_of_mem_eraseIdx hm)
  | _ => exact he.elim

/-! ## Runs -/

/-- A new picture is named as no picture of the user and no stored picture is. -/
def FreshName (p : World × (Text → Place)) (de : DeviceId × Event) : Prop :=
  ∀ move ∈ de.2.moved (p.1.client de.1), move.2 = .sending →
    p.2 move.1 = .unknown ∧ imagesFolder ++ move.1 ∉ p.1.server.images

instance (p : World × (Text → Place)) (de : DeviceId × Event) : Decidable (FreshName p de) :=
  inferInstanceAs (Decidable (∀ move ∈ _, _ → _))

/-- The load is complete, and the pictures in the rows are stored under different names. -/
@[mk_iff] structure Settled (uid : Uid) (d : DeviceId) (w : World) : Prop where
  user : (w.device d).currentUser = some uid
  rows : ∀ item ∈ (w.device d).itemArray, item.Plain
  loads : (w.device d).loads = []
  uploads : (w.device d).uploads = []
  document : Matches w.server.users uid (w.device d).itemArray
  names : (pictureNames (w.device d).itemArray).Nodup
  images : ∀ imageName ∈ pictureNames (w.device d).itemArray, imagesFolder ++ imageName ∈ w.server.images
  nodup : w.server.images.Nodup

instance (uid : Uid) (d : DeviceId) (w : World) : Decidable (Settled uid d w) :=
  decidable_of_iff _ (settled_iff uid d w).symm

def firstPlaces (d : DeviceId) (w : World) (imageName : Text) : Place :=
  if imageName ∈ pictureNames (w.device d).itemArray then .listed else .unknown

def NoRequest (d : Device) : Prop := d.loads = [] ∧ d.uploads = []

instance (d : Device) : Decidable (NoRequest d) := inferInstanceAs (Decidable (_ ∧ _))

structure Shelf (uid : Uid) (d : DeviceId) (w : World) (place : Text → Place) : Prop where
  editing : Editing uid (w.device d)
  stored : ∃ vals, itemsOf w.server.users uid = some vals ∧
    storedNames vals = pictureNames (w.device d).itemArray
  shelved : Shelved place (w.client d)

section
variable {uid : Uid} {d : DeviceId} {w w' : World} {e : Event} {place place' : Text → Place}

theorem Settled.shelf (h : Settled uid d w) : Shelf uid d w (firstPlaces d w) where
  editing := ⟨h.user, h.rows, by simp [h.uploads]⟩
  stored := ⟨_, h.document, storedNames_convert h.rows⟩
  shelved := by
    have hentries : entries (w.client d).itemArray (w.client d).uploads =
        (pictureNames (w.device d).itemArray).map fun imageName => (imageName, Place.listed) := by
      rw [entries, World.client_toDevice, h.uploads, List.map_nil, List.append_nil]
    refine ⟨⟨?_, fun imageName b => ?_⟩, fun imageName hk => ?_, h.nodup⟩
    · rw [hentries]
      exact h.names.map fun _ _ he => congrArg Prod.fst he
    · rw [hentries, List.mem_map, firstPlaces]
      refine ⟨?_, ?_⟩
      · rintro ⟨imageName, hm, ⟨⟩⟩
        rw [if_pos hm]
        exact ⟨rfl, trivial⟩
      · rintro ⟨rfl, hheld⟩
        by_cases hm : imageName ∈ pictureNames (w.device d).itemArray
        · exact ⟨imageName, hm, by rw [if_pos hm]⟩
        · rw [if_neg hm] at hheld
          exact hheld.elim
    · by_cases hm : imageName ∈ pictureNames (w.device d).itemArray
      · rw [firstPlaces, if_pos hm]
        exact iff_of_true (h.images imageName hm) trivial
      · exact absurd (if_neg hm) hk

theorem Shelf.step (h : Shelf uid d w place) (he : e.Edit) (hlink : e.Linked)
    (hfresh : FreshName (w, place) (d, e)) (hs : w.step (d, e) = some w') :
    Shelf uid d w' (life w (d, e) w' place) := by
  obtain ⟨vals, hv, hn⟩ := h.stored
  have hen := (World.step_eq_some.mp hs).1
  obtain ⟨c, ho, rfl⟩ := World.step_outcome hs
  have hedits := ho.edits he.1 h.editing.user
  refine ⟨?_, ?_, ?_⟩
  · rw [World.put_device_self]
    exact ho.editing he h.editing
  · rw [World.put_device_self, World.put_server, ho.users, ho.itemArray]
    refine names_edit hedits.1 hv hn h.editing.rows fun item hsent => ?_
    refine ⟨Event.plain_sent he.2 h.editing.uploads item hsent, fun hp hm => ?_⟩
    obtain ⟨uid', upload, accepted, heff⟩ := Effect.mem_sent hsent
    rcases Event.effect_eq_put heff with ⟨form, -, -, rfl, -⟩ | ⟨i, imageLink, up, -, hl, rfl, -⟩
    · exact hp rfl
    · -- a picture on its way is not in the rows
      have hplace := h.shelved.place_upload hl
      have hlisted : place up.imageName = .listed := (mem_pictureNames h.shelved _).mp hm
      rw [hlisted] at hplace
      cases hup : up.stage <;> rw [hup] at hplace <;> cases hplace
  · have hstep := h.shelved.step ho hen he.1 hlink h.editing.user fun imageName hmoved => hfresh _ hmoved rfl
    exact hstep.keep (by simp [World.client]) (by simp [World.client])

end

/-- **Every stored item has its picture, and the pictures without an item are
those given up.** In every run of one user on one device of saves and deletes
whose writes are accepted, once no request is outstanding, the stored items name
their pictures without repetition, and the pictures of the user in the images
folder are these and the ones whose link could not be had or whose deletion
failed. -/
theorem pictures_matched (uid : Uid) (d : DeviceId) (w w' : World) (place : Text → Place)
    (es : List (DeviceId × Event)) (hstart : Settled uid d w)
    (hes : ∀ de ∈ es, de.1 = d ∧ de.2.Edit ∧ de.2.Linked)
    (hfresh : Runs.Along (Runs.record World.step life) (fun p de _ => FreshName p de) (w, firstPlaces d w) es)
    (hr : Runs.run (Runs.record World.step life) (w, firstPlaces d w) es = some (w', place))
    (hq : NoRequest (w'.device d)) :
    ∃ vals, itemsOf w'.server.users uid = some vals ∧ (storedNames vals).Nodup ∧
      (∀ imageName, imageName ∈ storedNames vals ↔ place imageName = .listed) ∧
      ∀ imageName, place imageName ≠ .unknown → (imagesFolder ++ imageName ∈ w'.server.images ↔
        imageName ∈ storedNames vals ∨ place imageName = .abandoned) := by
  have h : Shelf uid d w' place := by
    refine Runs.Along.invariant (I := fun p => Shelf uid d p.1 p.2)
      (C := fun p de _ => FreshName p de ∧ de.1 = d ∧ de.2.Edit ∧ de.2.Linked) ?_ hstart.shelf
      (hfresh.and (Runs.Along.of_forall _ hes)) hr
    intro p de p' h hc hs
    obtain ⟨d', e⟩ := de
    obtain ⟨hf, hd, he, hlink⟩ := hc
    obtain rfl : d' = d := hd
    obtain ⟨hs, hplace⟩ := Runs.record_some.mp hs
    rw [hplace]
    exact h.step he hlink hf hs
  obtain ⟨vals, hv, hn⟩ := h.stored
  have hlisted := mem_pictureNames h.shelved
  rw [World.client_toDevice] at hlisted
  refine ⟨vals, hv, ?_, ?_, ?_⟩
  · rw [hn]
    exact nodup_pictureNames h.shelved
  · rw [hn]
    exact hlisted
  · intro imageName hk
    rw [hn, hlisted]
    refine (h.shelved.images imageName hk).trans ?_
    have hnot := not_uploaded h.shelved hq.2 imageName
    cases hplace : place imageName <;> simp_all [Place.stored]

/-- The picture is stored, but its link cannot be had. -/
def linkLost : List (DeviceId × Event) :=
  [(0, .save (pictured 'x') true), (0, .putData 0 true), (0, .downloadURL 0 none true)]

/-- The item is deleted, and its picture is not. -/
def pictureKept : List (DeviceId × Event) :=
  [(0, .save (pictured 'x') true), (0, .putData 0 true), (0, .downloadURL 0 (some ['l']) true),
    (0, .delete 0 false true)]

theorem leftover_picture : ∃ w, Runs.run World.step {} signedIn = some w ∧ Settled ['u'] 0 w ∧
    ∀ es ∈ [linkLost, pictureKept], (∀ de ∈ es, de.1 = 0 ∧ de.2.Edit ∧ de.2.Linked) ∧
      Runs.Along (Runs.record World.step life) (fun p de _ => FreshName p de) (w, firstPlaces 0 w) es ∧
      Runs.Along World.step (fun w de _ => w.Gated de) w es ∧
      ∃ w', Runs.run World.step w es = some w' ∧ NoRequest (w'.device 0) ∧
        itemsOf w'.server.users ['u'] = some [] ∧ w'.server.images = [imagesFolder ++ ['n']] := by
  decide +kernel

def threeSaves : List (DeviceId × Event) :=
  [(0, add 'x'), (0, .save (pictured 'y') true), (0, .putData 0 true), (0, .downloadURL 0 (some ['l']) true),
    (0, .save ⟨['z'], ['1'], some ⟨['m'], true⟩⟩ true), (0, .putData 0 false)]

theorem pictures_matched_three_saves : ∃ w p vals, Settled ['u'] 0 w ∧
    Runs.run (Runs.record World.step life) (w, firstPlaces 0 w) threeSaves = some p ∧
    itemsOf p.1.server.users ['u'] = some vals ∧ (storedNames vals).Nodup ∧ p.2 ['n'] = .listed ∧
    ['n'] ∈ storedNames vals := by
  obtain ⟨w, -, hstart, hfresh, p, hp, hq, hlisted⟩ : ∃ w, Runs.run World.step {} signedIn = some w ∧
      Settled ['u'] 0 w ∧
      Runs.Along (Runs.record World.step life) (fun p de _ => FreshName p de) (w, firstPlaces 0 w) threeSaves ∧
      ∃ p, Runs.run (Runs.record World.step life) (w, firstPlaces 0 w) threeSaves = some p ∧
        NoRequest (p.1.device 0) ∧ p.2 ['n'] = .listed := by decide +kernel
  obtain ⟨vals, hv, hnodup, hnames, -⟩ :=
    pictures_matched ['u'] 0 w p.1 p.2 threeSaves hstart (by decide) hfresh hp hq
  exact ⟨w, p, vals, hstart, hp, hv, hnodup, hlisted, (hnames ['n']).mpr hlisted⟩

end ShoppingList
