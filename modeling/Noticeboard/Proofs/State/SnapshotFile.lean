import Noticeboard.SnapshotStore
import Noticeboard.Proofs.Bytes
import Noticeboard.Proofs.State.Run

/-!
# Snapshot files are read back

The form of every type in a snapshot is lawful, so the file of a snapshot has all of it: the bytes
of a snapshot are read as that snapshot whatever follows them, no other snapshot has the same bytes,
and a store loads what it saved.
-/

namespace Noticeboard

/-! ## Ids -/

theorem IdentityId.lawful : form.Lawful := (Form.lawful_bits 32).via fun _ => rfl

theorem IdentityId.solid : form.Solid := (Form.solid_bits (by omega)).via _ _

theorem Token.lawful : form.Lawful := by
  intro t rest _
  have hwidth := Form.read_word64 (n := 16) (by decide) ((Form.bits 16).write t.bits ++ rest)
  have hbits := Form.lawful_bits 16 t.bits rest (by rw [Form.length_write_bits]; decide)
  simp only [form, Form.via, Form.pair, List.append_assoc, hwidth, Option.bind_some, hbits,
    Option.map_some, if_true]

theorem MessageId.lawful : form.Lawful := (IdentityId.lawful.pair Token.lawful).via fun _ => rfl

theorem MessageId.solid : form.Solid := (IdentityId.solid.pair _).via _ _

theorem ListId.lawful : form.Lawful := (IdentityId.lawful.pair Form.lawful_word64).via fun _ => rfl

theorem ListId.solid : form.Solid := (IdentityId.solid.pair _).via _ _

theorem BoardName.lawful : form.Lawful := Form.lawful_text.via fun b => dif_pos b.valid

theorem BoardName.solid : form.Solid := Form.solid_text.via _ _

/-! ## Messages and lists -/

theorem Attachment.lawful : form.Lawful :=
  (Form.lawful_text.pair Form.lawful_word64).via fun _ => rfl

theorem Attachment.solid : form.Solid := (Form.solid_text.pair _).via _ _

theorem Message.lawful : form.Lawful :=
  (MessageId.lawful.pair <| Form.lawful_text.pair <| Form.lawful_text.pair <|
    Form.lawful_word64.pair <| (Attachment.lawful.list Attachment.solid).pair <|
    (BoardName.lawful.set BoardName.solid).pair <| BoardName.lawful.option.pair <|
    MessageId.lawful.option.pair <| MessageId.lawful.option.pair ListId.lawful.option).via
    fun _ => rfl

theorem Message.solid : form.Solid := (MessageId.solid.pair _).via _ _

theorem Announcement.lawful : form.Lawful :=
  (MessageId.lawful.pair <| BoardName.lawful.pair <| Form.lawful_word64.pair <|
    Form.lawful_text.pair Form.lawful_flag).via fun _ => rfl

theorem Announcement.solid : form.Solid := (MessageId.solid.pair _).via _ _

theorem MessageList.lawful : form.Lawful :=
  (ListId.lawful.pair <| (Announcement.lawful.list Announcement.solid).pair
    Form.lawful_word64).via fun _ => rfl

theorem MessageList.solid : form.Solid := (ListId.solid.pair _).via _ _

/-! ## Markers -/

theorem Subject.lawful : form.Lawful :=
  (MessageId.lawful.either ListId.lawful).via fun s => by cases s <;> rfl

theorem Subject.solid : form.Solid := (Form.solid_either _ _).via _ _

theorem FetchReason.lawful : form.Lawful :=
  (Form.lawful_nothing.either Form.lawful_nothing).via fun r => by cases r <;> rfl

theorem Marker.lawful : form.Lawful :=
  (FetchReason.lawful.pair <| Form.lawful_word32.pair <| Form.lawful_word64.pair <|
    Form.lawful_word64.pair <| Form.lawful_word64.pair Form.lawful_flag).via fun _ => rfl

/-! ## Outbox -/

theorem OutboxState.lawful : form.Lawful :=
  (Form.lawful_nothing.either (Form.lawful_text.pair Form.lawful_word64)).via fun s => by
    cases s <;> rfl

theorem OutboxEntry.lawful : form.Lawful :=
  (Message.lawful.pair <| Form.lawful_word64.pair <| OutboxState.lawful.pair <|
    Form.lawful_word32.pair Form.lawful_text.option).via fun _ => rfl

/-! ## Snapshots -/

namespace Snapshot

theorem lawful : form.Lawful :=
  (Form.lawful_word32.pair <| Form.lawful_word64.pair <|
    (BoardName.lawful.list BoardName.solid).pair <|
    (Message.lawful.list Message.solid).pair <|
    (BoardName.lawful.map BoardName.solid (MessageId.lawful.list MessageId.solid)).pair <|
    (MessageList.lawful.list MessageList.solid).pair <|
    ((Subject.lawful.pair Marker.lawful).list (Subject.solid.pair _)).pair <|
    (IdentityId.lawful.map IdentityId.solid (BoardName.lawful.set BoardName.solid)).pair <|
    (MessageId.lawful.map MessageId.solid OutboxEntry.lawful).pair
      (IdentityId.lawful.list IdentityId.solid)).via fun _ => rfl

theorem ofBytes?_append {p : Snapshot} (hp : p.toBytes.length < UInt64.size) (rest : Bytes) :
    ofBytes? (p.toBytes ++ rest) = some p := by
  rw [ofBytes?, toBytes, lawful p rest hp, Option.map_some]

end Snapshot

/-! ## Files -/

namespace Disk

theorem needFolder_eq_ok {d : Disk} {p : Place} : d.needFolder p = .ok () ↔ d.isFolder p = true := by
  unfold needFolder
  split
  · next h => exact ⟨fun _ => h, fun _ => rfl⟩
  · next h =>
    refine ⟨fun hok => ?_, fun hf => absurd hf h⟩
    split at hok <;> cases hok

theorem isFolder_congr {d d' : Disk} (h : d'.folders = d.folders) (p : Place) :
    d'.isFolder p = d.isFolder p := by
  unfold isFolder
  rw [h]

theorem needFolder_of_folders {d d' : Disk} (h : d'.folders = d.folders) {p : Place}
    (hp : d.needFolder p = .ok ()) : d'.needFolder p = .ok () := by
  rw [needFolder_eq_ok, isFolder_congr h, ← needFolder_eq_ok, hp]

/-- A walk that arrives depends on the folders alone. -/
theorem walk_of_folders {d d' : Disk} (h : d'.folders = d.folders) {p q : Place}
    {steps : List String} (hw : d.walk p steps = .ok q) : d'.walk p steps = .ok q := by
  induction steps generalizing p with
  | nil => exact hw
  | cons s steps ih =>
    obtain ⟨_, hp, hw⟩ := bind_eq_ok.1 hw
    refine bind_eq_ok.2 ⟨(), needFolder_of_folders h hp, ?_⟩
    cases hs : p.step? s with
    | none =>
      rw [hs] at hw
      cases hw
    | some p' =>
      rw [hs] at hw
      exact ih hw

theorem locate_of_folders {d d' : Disk} (h : d'.folders = d.folders) {text : String} {p : Place}
    (hp : d.locate text = .ok p) : d'.locate text = .ok p := by
  unfold locate at hp ⊢
  split at hp
  · cases hp
  · next htext =>
    rw [if_neg htext]
    obtain ⟨q, hq, hp⟩ := bind_eq_ok.1 hp
    refine bind_eq_ok.2 ⟨q, walk_of_folders h hq, ?_⟩
    split at hp
    · next hfolder =>
      obtain ⟨_, hn, hp⟩ := bind_eq_ok.1 hp
      rw [if_pos hfolder]
      exact bind_eq_ok.2 ⟨(), needFolder_of_folders h hn, hp⟩
    · next hfolder =>
      rw [if_neg hfolder]
      exact hp

theorem locateFile_of_folders {d d' : Disk} (h : d'.folders = d.folders) {text : String}
    {p : Place} (hp : d.locateFile text = .ok p) : d'.locateFile text = .ok p := by
  obtain ⟨q, hq, hp⟩ := bind_eq_ok.1 hp
  refine bind_eq_ok.2 ⟨q, locate_of_folders h hq, ?_⟩
  rw [isFolder_congr h]
  exact hp

/-- What was moved to a path is read there. -/
theorem read_moved {d d' : Disk} {text target : String} {bytes : Bytes}
    (hb : d.read text = .ok bytes) (h : d.move text target = .ok d') :
    d'.read target = .ok bytes := by
  obtain ⟨p, hp, h⟩ := bind_eq_ok.1 h
  obtain ⟨q, hq, h⟩ := bind_eq_ok.1 h
  obtain ⟨_, hb', h⟩ := bind_eq_ok.1 h
  cases hb.symm.trans hb'
  cases h
  refine bind_eq_ok.2 ⟨q, locateFile_of_folders (by rfl) hq, ?_⟩
  simp only [Std.ExtTreeMap.getElem?_insert_self]
  rfl

/-- What was written to a path is read there. -/
theorem read_written {d d' : Disk} {text : String} {bytes : Bytes}
    (h : d.write text bytes = .ok d') : d'.read text = .ok bytes := by
  obtain ⟨p, hp, h⟩ := bind_eq_ok.1 h
  cases h
  refine bind_eq_ok.2 ⟨p, locateFile_of_folders (by rfl) hp, ?_⟩
  simp only [Std.ExtTreeMap.getElem?_insert_self]
  rfl

theorem read_saved {d d' : Disk} {path : String} {p : Snapshot}
    (h : d.save path p = (d', .ok ())) : d'.read path = .ok p.toBytes := by
  unfold save at h
  split at h
  · cases h
  · next d₁ hwrite =>
    split at h
    · cases h
    · next hmove =>
      cases h
      exact read_moved (read_written hwrite) hmove

theorem load_of_read {d : Disk} {path : String} {p : Snapshot} (hp : p.toBytes.length < UInt64.size)
    (rest : Bytes) (h : d.read path = .ok (p.toBytes ++ rest)) : d.load path = .ok (some p) := by
  simp only [load, h, Snapshot.ofBytes?_append hp]

end Disk

/-! ## The law of the file -/

namespace Snapshot

/-- A snapshot whose bytes can be counted in eight of them is read from these bytes whatever follows
them, and a store loads it from a file that begins with them or that it was saved to. No other
snapshot has the same bytes or begins with them. -/
theorem read_back (p : Snapshot) (hp : p.toBytes.length < UInt64.size) :
    (∀ rest, form.read (p.toBytes ++ rest) = some (p, rest) ∧
      ofBytes? (p.toBytes ++ rest) = some p) ∧
    (∀ (d : Disk) path rest, d.read path = .ok (p.toBytes ++ rest) →
      d.load path = .ok (some p)) ∧
    (∀ (d d' : Disk) path, d.save path p = (d', .ok ()) → d'.load path = .ok (some p)) ∧
    (∀ q : Snapshot, q.toBytes = p.toBytes → q = p) ∧
    ∀ (q : Snapshot) rest rest', q.toBytes.length < UInt64.size →
      q.toBytes ++ rest' = p.toBytes ++ rest → q = p ∧ rest' = rest := by
  have hdelimited : ∀ (q : Snapshot) rest rest', q.toBytes.length < UInt64.size →
      q.toBytes ++ rest' = p.toBytes ++ rest → q = p ∧ rest' = rest :=
    fun q rest rest' hq h => lawful.delimited hq hp h
  refine ⟨fun rest => ⟨lawful p rest hp, ofBytes?_append hp rest⟩,
    fun d path rest => Disk.load_of_read hp rest, fun d d' path h => ?_, fun q h => ?_, hdelimited⟩
  · refine Disk.load_of_read hp [] ?_
    rw [List.append_nil, Disk.read_saved h]
  · refine (hdelimited q [] [] (h ▸ hp) ?_).1
    rw [List.append_nil, List.append_nil, h]

theorem ring_read_back :
    let viewer : IdentityId := ⟨.ofNat 256 9⟩
    let ops : List Engine.Op := [.subscribe viewer Board.Ring.board,
      .receive Board.Ring.first none, .receive Board.Ring.root none,
      .receiveList ⟨Board.Ring.second.author, 0⟩
        [⟨Board.Ring.second.id, Board.Ring.board, 0, "key", false⟩] 0,
      .fail (.message Board.Ring.second.id) .transient,
      .deleteIdentity Board.Ring.root.author,
      .queueOwn (.newThread ⟨viewer, ⟨3⟩⟩ "mine" "" 9 {Board.Ring.board})]
    let p := (Engine.run {} .everyone 0 ops).snapshot
    p.messages.length = 2 ∧ p.lists.length = 1 ∧ p.markers.length = 1 ∧ p.deletedRoots.size = 1 ∧
      p.outbox.size = 1 ∧ p.toBytes.length < UInt64.size ∧
      ∀ rest, ofBytes? (p.toBytes ++ rest) = some p := by
  intro viewer ops p
  have hp : p.toBytes.length < UInt64.size := by decide +kernel
  exact ⟨by decide +kernel, by decide +kernel, by decide +kernel, by decide +kernel,
    by decide +kernel, hp, fun rest => ((read_back p hp).1 rest).2⟩

end Snapshot

end Noticeboard
