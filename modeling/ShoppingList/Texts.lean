import ShoppingList.Effect

/-!
# Texts free of `;`

An item comes back from its stored string when no text it is made of holds a
`;`. The two text fields are the user's; the name of a picture and its link are
made by the app and by Storage.
-/

namespace ShoppingList

namespace Event

/-- No `;` in the two text fields. -/
def Typed : Event → Prop
  | .save form _ => semicolon ∉ form.name ∧ semicolon ∉ form.amount
  | _ => True

/-- No `;` in the name and the link of a picture. -/
def Generated : Event → Prop
  | .save form _ => ∀ image ∈ form.image, semicolon ∉ image.imageName
  | .downloadURL _ url _ => ∀ imageLink ∈ url, semicolon ∉ imageLink
  | _ => True

def Plain (e : Event) : Prop := e.Typed ∧ e.Generated

instance : DecidablePred Typed
  | .save .. => inferInstanceAs (Decidable (_ ∧ _))
  | .launch | .register .. | .login .. | .logout .. | .delete .. | .answered .. | .loaded ..
  | .loadFailed .. | .putData .. | .downloadURL .. | .notified => .isTrue trivial

instance : DecidablePred Generated
  | .save form _ => inferInstanceAs (Decidable (∀ image ∈ form.image, _))
  | .downloadURL _ url _ => inferInstanceAs (Decidable (∀ imageLink ∈ url, _))
  | .launch | .register .. | .login .. | .logout .. | .delete .. | .answered .. | .loaded ..
  | .loadFailed .. | .putData .. | .notified => .isTrue trivial

instance : DecidablePred Plain := fun e => inferInstanceAs (Decidable (e.Typed ∧ e.Generated))

end Event

structure Upload.Plain (upload : Upload) : Prop where
  name : semicolon ∉ upload.name
  amount : semicolon ∉ upload.amount
  imageName : semicolon ∉ upload.imageName

theorem plain_of_fields {name amount picture pictureName : Text} (hn : semicolon ∉ name)
    (ha : semicolon ∉ amount) (hp : semicolon ∉ picture) (hq : semicolon ∉ pictureName) :
    Item.Plain ⟨name, amount, picture, pictureName⟩ := by
  simp [Item.Plain, Item.fields, hn, ha, hp, hq]

namespace Outcome

variable {c c' : Client} {e : Event}

theorem plain_uploads (h : Outcome c e c') (he : e.Plain) (hups : ∀ up ∈ c.uploads, up.Plain) :
    ∀ up ∈ c'.uploads, up.Plain := by
  refine h.forall_uploads hups (fun up _ hup => ⟨hup.name, hup.amount, hup.imageName⟩) ?_
  rintro form accepted image uid rfl - hi
  obtain ⟨⟨hname, hamount⟩, himage⟩ := he
  exact ⟨hname, hamount, himage image hi⟩

end Outcome

theorem Event.plain_sent {c : Client} {e : Event} (he : e.Plain) (hups : ∀ up ∈ c.uploads, up.Plain) :
    ∀ item ∈ (e.effect c).sent, item.Plain := by
  intro item hm
  obtain ⟨uid, upload, accepted, heff⟩ := Effect.mem_sent hm
  rcases Event.effect_eq_put heff with ⟨form, rfl, -, rfl, -⟩ | ⟨i, imageLink, up, rfl, hl, rfl, -⟩
  · exact plain_of_fields he.1.1 he.1.2 (by decide) (by decide)
  · obtain ⟨hname, hamount, himage⟩ := hups up (List.mem_of_getElem? hl)
    exact plain_of_fields hname hamount (he.2 _ rfl) himage

end ShoppingList
