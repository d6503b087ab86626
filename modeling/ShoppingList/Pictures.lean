import ShoppingList.Loading
import ShoppingList.Texts

/-!
# Pictures

A delete takes the name of the picture from the row, and the row may have been
stored and read back. `made` lists the calls of `putItemInDatabase` so far, each
with the upload that it ended. Without `;` in the texts every row is an item of
that list as it was sent, so that a delete finds its own picture or none.
-/

namespace ShoppingList

def Effect.made : Effect → List (Item × Option Upload)
  | .put _ item upload _ => [(item, upload)]
  | _ => []

def made (w : World) (de : DeviceId × Event) (_ : World) (h : List (Item × Option Upload)) :
    List (Item × Option Upload) :=
  (de.2.effect (w.client de.1)).made ++ h

def Event.Linked : Event → Prop
  | .downloadURL _ url _ => noPicture ∉ url
  | _ => True

instance : DecidablePred Event.Linked
  | .downloadURL _ url _ => inferInstanceAs (Decidable (noPicture ∉ url))
  | .launch | .register .. | .login .. | .logout .. | .save .. | .delete .. | .answered .. | .loaded ..
  | .loadFailed .. | .putData .. | .notified => .isTrue trivial

/-- A delete is of an item that was sent to the database. If no upload ended in
it, Storage is sent nothing, and otherwise the path of that upload's picture. -/
def OwnPicture (h : List (Item × Option Upload)) (w : World) (de : DeviceId × Event) (w' : World) : Prop :=
  ∀ row deleted accepted item, de.2 = .delete row deleted accepted →
    (w.device de.1).itemArray[row]? = some item →
      (∃ upload, (item, upload) ∈ h) ∧
      ((item, none) ∈ h → w'.server.deletions = w.server.deletions) ∧
      (∀ upload, (item, some upload) ∈ h →
        w'.server.deletions = w.server.deletions ++ [imagesFolder ++ upload.imageName])

/-! ## The invariant -/

structure Entry (item : Item) (upload : Option Upload) : Prop where
  plain : item.Plain
  unpictured : upload = none → item.picture = noPicture
  pictured : ∀ up ∈ upload, item.picture ≠ noPicture ∧ item.pictureName = up.imageName

def IsMade (h : List (Item × Option Upload)) (item : Item) : Prop := ∃ upload, (item, upload) ∈ h

def FromMade (h : List (Item × Option Upload)) (val : Text) : Prop :=
  ∃ item, IsMade h item ∧ val = convertItemToString item

structure Traced (w : World) (h : List (Item × Option Upload)) : Prop where
  entries : ∀ item upload, (item, upload) ∈ h → Entry item upload
  uploads : ∀ d, ∀ up ∈ (w.device d).uploads, up.Plain
  rows : ∀ d, ∀ item ∈ (w.device d).itemArray, IsMade h item
  stored : Stored (FromMade h) w.server.users
  answers : Answered (fun _ documents => ∀ document ∈ documents, ∀ val ∈ document.2.items, FromMade h val) w

theorem traced_empty : Traced {} [] := ⟨nofun, nofun, nofun, stored_empty _, answered_empty _⟩

section
variable {h : List (Item × Option Upload)}

theorem IsMade.append {item : Item} (hm : IsMade h item) (l : List (Item × Option Upload)) :
    IsMade (l ++ h) item := by
  obtain ⟨upload, hm⟩ := hm
  exact ⟨upload, List.mem_append_right l hm⟩

theorem FromMade.append {val : Text} (hv : FromMade h val) (l : List (Item × Option Upload)) :
    FromMade (l ++ h) val := by
  obtain ⟨item, hm, rfl⟩ := hv
  exact ⟨item, hm.append l, rfl⟩

theorem isMade_sent {eff : Effect} {item : Item} (hs : item ∈ eff.sent) : IsMade (eff.made ++ h) item := by
  cases eff with
  | put uid item' upload =>
    cases hs
    exact ⟨upload, List.mem_cons_self ..⟩
  | _ => cases hs

theorem FromMade.read {val : Text} {item : Item} (hv : FromMade h val)
    (he : ∀ item upload, (item, upload) ∈ h → Entry item upload) (hr : itemOfString val = some item) :
    IsMade h item := by
  obtain ⟨item', ⟨upload, hm⟩, rfl⟩ := hv
  rw [itemOfString_convert (he item' upload hm).plain, Option.some.injEq] at hr
  exact hr ▸ ⟨upload, hm⟩

end

theorem Event.entry_of_effect {c : Client} {e : Event} (he : e.Plain) (hlink : e.Linked)
    (hups : ∀ up ∈ c.uploads, up.Plain) {uid : Uid} {item : Item} {upload : Option Upload} {accepted : Bool}
    (heff : e.effect c = .put uid item upload accepted) : Entry item upload := by
  have hplain := Event.plain_sent he hups item (by rw [heff]; rfl)
  rcases Event.effect_eq_put heff with ⟨form, rfl, -, rfl, rfl⟩ | ⟨i, imageLink, up, rfl, -, rfl, rfl⟩
  · exact ⟨hplain, fun _ => rfl, nofun⟩
  · refine ⟨hplain, nofun, fun up' hup => ?_⟩
    cases hup
    exact ⟨fun hno => hlink (congrArg some hno), rfl⟩

section
variable {w w' : World} {d : DeviceId} {e : Event} {h : List (Item × Option Upload)}

theorem Traced.entries_step (ht : Traced w h) (he : e.Plain) (hlink : e.Linked) :
    ∀ item upload, (item, upload) ∈ made w (d, e) w' h → Entry item upload := by
  intro item upload hm
  rcases List.mem_append.mp hm with hm | hm
  · cases heff : e.effect (w.client d) with
    | put uid item' upload' accepted =>
      rw [heff, Effect.made, List.mem_singleton] at hm
      cases hm
      exact Event.entry_of_effect he hlink (ht.uploads d) heff
    | _ => rw [heff] at hm; cases hm
  · exact ht.entries item upload hm

theorem Traced.step (ht : Traced w h) (he : e.Plain) (hlink : e.Linked) (hs : w.step (d, e) = some w') :
    Traced w' (made w (d, e) w' h) := by
  have hentries : ∀ item upload, (item, upload) ∈ made w (d, e) w' h → Entry item upload :=
    ht.entries_step he hlink
  have hold : Listed (IsMade (made w (d, e) w' h)) (FromMade (made w (d, e) w' h)) w :=
    Listed.mono ⟨ht.rows, ht.stored, ht.answers⟩ (fun _ hm => hm.append _) fun _ hv => hv.append _
  have hlisted := hold.step (fun item hm => ⟨item, hm, rfl⟩) (fun val item hv hr => hv.read hentries hr)
    (fun item hm => isMade_sent hm) hs
  refine ⟨hentries, ?_, hlisted.rows, hlisted.stored, hlisted.answers⟩
  exact World.step_device (P := fun dev => ∀ up ∈ dev.uploads, up.Plain) ht.uploads hs
    fun _ ho => ho.plain_uploads he (ht.uploads d)

theorem Outcome.delete_deletions {c c' : Client} {row : Nat} {deleted accepted : Bool} {item : Item}
    (ho : Outcome c (.delete row deleted accepted) c') (hr : c.itemArray[row]? = some item) :
    c'.server.deletions = if item.picture = noPicture then c.server.deletions
      else c.server.deletions ++ [imagesFolder ++ item.pictureName] := by
  cases ho with
  | deleted hr' =>
    obtain rfl := Option.some.inj (hr.symm.trans hr')
    by_cases hp : item.picture = noPicture <;> simp [hp, Server.updateData, Server.deleteImage]
  | rowMissing hr' => rw [hr'] at hr; cases hr

theorem Traced.ownPicture (ht : Traced w h) (hs : w.step (d, e) = some w') : OwnPicture h w (d, e) w' := by
  rintro row deleted accepted item ⟨⟩ hrow
  obtain ⟨c, ho, rfl⟩ := World.step_outcome hs
  have hdel := ho.delete_deletions hrow
  refine ⟨ht.rows d item (List.mem_of_getElem? hrow), fun hm => ?_, fun upload hm => ?_⟩
  · rw [if_pos ((ht.entries item none hm).unpictured rfl)] at hdel
    exact hdel
  · obtain ⟨hpicture, hname⟩ := (ht.entries item (some upload) hm).pictured upload rfl
    rw [if_neg hpicture, hname] at hdel
    exact hdel

end

/-- **A delete removes only the deleted item's own picture**, in any run of any
number of devices and users in which no `;` is typed. The names and the links of
pictures are assumed to hold no `;`, and no link to be `/`. -/
theorem delete_own_picture (es : List (DeviceId × Event)) (ht : ∀ de ∈ es, de.2.Typed)
    (hg : ∀ de ∈ es, de.2.Generated ∧ de.2.Linked) :
    Runs.Along (Runs.record World.step made) (fun p de p' => OwnPicture p.2 p.1 de p'.1) ({}, []) es := by
  refine Runs.Along.conclude (I := fun p => Traced p.1 p.2) (C := fun _ de _ => de.2.Plain ∧ de.2.Linked)
    ?_ ?_ traced_empty (Runs.Along.of_forall _ fun de hm => ⟨⟨ht de hm, (hg de hm).1⟩, (hg de hm).2⟩)
  · intro p de p' h hc hs
    obtain ⟨d, e⟩ := de
    obtain ⟨he, hlink⟩ := hc
    obtain ⟨hs, hmade⟩ := Runs.record_some.mp hs
    rw [hmade]
    exact h.step he hlink hs
  · intro p de p' h _ hs
    obtain ⟨d, e⟩ := de
    exact h.ownPicture (Runs.record_some.mp hs).1

def pictured (name : Char) : Form := { name := [name], amount := ['1'], image := some ⟨['n'], true⟩ }

/-- `v` saves an item with a picture. `u` types its link and its name into the
name of an item without one, and loads the list again. -/
def forged : List (DeviceId × Event) :=
  [(1, .launch), (1, .register ['v'] true), (1, .save (pictured 'y') true), (1, .putData 0 true),
    (1, .downloadURL 0 (some ['l']) true), (0, .launch), (0, .register ['u'] true),
    (0, .save ⟨['a', ';', 'b', ';', 'l', ';', 'n'], ['1'], none⟩ true), (0, .launch), (0, .answered 0),
    (0, .loaded 0)]

theorem forged_delete : ∃ p w', Runs.run (Runs.record World.step made) ({}, []) forged = some p ∧
    (∀ de ∈ forged, de.2.Generated ∧ de.2.Linked) ∧
    p.2.map (fun entry => entry.2.map (·.savedBy)) = [none, some (some ['v'])] ∧
    (p.1.device 0).currentUser = some ['u'] ∧ (p.1.device 0).itemArray.length = 1 ∧
    p.1.server.images = [imagesFolder ++ ['n']] ∧ p.1.step (0, .delete 0 true true) = some w' ∧
    w'.server.deletions = [imagesFolder ++ ['n']] ∧ w'.server.images = [] ∧
    ¬OwnPicture p.2 p.1 (0, .delete 0 true true) w' := by
  obtain ⟨p, hp, hmade, hu, hlen, himages, hrow, hnone, w', hw', hdeletions, hafter⟩ : ∃ p,
      Runs.run (Runs.record World.step made) ({}, []) forged = some p ∧
      p.2.map (fun entry => entry.2.map (·.savedBy)) = [none, some (some ['v'])] ∧
      (p.1.device 0).currentUser = some ['u'] ∧ (p.1.device 0).itemArray.length = 1 ∧
      p.1.server.images = [imagesFolder ++ ['n']] ∧
      (p.1.device 0).itemArray[0]? = some ⟨['a'], ['b'], ['l'], ['n']⟩ ∧
      (∀ entry ∈ p.2, entry.1 ≠ ⟨['a'], ['b'], ['l'], ['n']⟩) ∧
      ∃ w', p.1.step (0, .delete 0 true true) = some w' ∧ w'.server.deletions = [imagesFolder ++ ['n']] ∧
        w'.server.images = [] := by decide +kernel
  refine ⟨p, w', hp, by decide, hmade, hu, hlen, himages, hw', hdeletions, hafter, fun hown => ?_⟩
  obtain ⟨⟨upload, hm⟩, -⟩ := hown 0 true true _ rfl hrow
  exact hnone _ hm rfl

def honest : List (DeviceId × Event) :=
  [(0, .launch), (0, .register ['u'] true), (0, add 'x'), (0, .save (pictured 'y') true), (0, .putData 0 true),
    (0, .downloadURL 0 (some ['l']) true), (0, .launch), (0, .answered 0), (0, .loaded 0),
    (0, .delete 0 true true), (0, .delete 0 true true)]

theorem delete_own_picture_honest : (Runs.run (Runs.record World.step made) ({}, []) honest).isSome = true ∧
    Runs.Along (Runs.record World.step made) (fun p de p' => OwnPicture p.2 p.1 de p'.1) ({}, []) honest :=
  ⟨by decide +kernel, delete_own_picture honest (by decide) (by decide)⟩

end ShoppingList
