/-
# `Listing` — the replies that list every device

`Get_Dev_Info.*` and `Get_Dev_Value.*` are answered with one text put together by
`strcat` in a buffer nobody empties first.  The reply is the listing of the table
exactly when the first byte of that buffer happens to be zero.  Starting from an empty
buffer it fits the controller's buffer and the packet of the command line exactly while
the fields of the twelve devices are short enough together.
-/
import SmartHome.Safety
import SmartHome.Traffic
import SmartHome.Packet

namespace SmartHome

open Traced

theorem isWord_allDevices : IsWord allDevices := by decide

def everyDevice : Word := ⟨allDevices, isWord_allDevices⟩

namespace Kontroler

/-- `Get_Dev_Info.*` or `Get_Dev_Value.*`. -/
def listingRequest (p : Property) : CStr := (Mes.get p everyDevice).text

theorem completed_listing (p : Property) (stale : CStr) (devices : List Device)
    (topicName : List Char) : completed (handle stale devices topicName (listingRequest p)) =
      some (devices, [⟨Topic.ui, listing p stale devices⟩]) :=
  handle_get_all stale devices topicName (Mes.carried_text _) rfl

theorem published_listing (p : Property) (stale : CStr) (devices : List Device)
    (topicName : List Char) : published (handle stale devices topicName (listingRequest p)) =
      [⟨Topic.ui, listing p stale devices⟩] :=
  (completed_eq_some.mp (completed_listing p stale devices topicName)).2

/-! ## What the reply says -/

/-- Whatever the table and whatever the buffer held: the reply is a line break and a line for
each device in order exactly when the first byte of the buffer was the NUL. -/
theorem listing_exact_iff (p : Property) (devices : List Device) (topicName : List Char)
    {bytes : List Char} (hnul : nul ∈ bytes) :
    published (handle (cstr bytes) devices topicName (listingRequest p)) =
        [⟨Topic.ui, "\n".toList ++ devices.flatMap (listed p)⟩] ↔ bytes.head? = some nul := by
  have hempty : cstr bytes = [] ↔ bytes.head? = some nul := by
    cases bytes with
    | nil => cases hnul
    | cons c cs => simp [cstr, List.takeWhile_cons]
  rw [published_listing, ← hempty, listing]
  constructor
  · intro h
    have hlen := congrArg (fun ms => (ms.map fun m => m.payload.length).sum) h
    simp only [List.map_cons, List.map_nil, List.sum_cons, List.sum_nil, List.length_append] at hlen
    exact List.eq_nil_of_length_eq_zero (by omega)
  · intro h
    rw [h]
    rfl

theorem listing_exact_emptyStack :
    published (handle (cstr [nul, 'x']) (main ⟨0, 0⟩) Topic.controler (listingRequest .value)) =
      [⟨Topic.ui, "\n".toList ++ (main ⟨0, 0⟩).flatMap (listed .value)⟩] := by
  have hnul : nul ∈ [nul, 'x'] := List.mem_cons_self
  exact (listing_exact_iff .value (main ⟨0, 0⟩) Topic.controler hnul).mpr rfl

/-- The table as it is after the boot, and a buffer that holds the string `x`. -/
theorem listing_not_exact : ¬ ∀ (u : Uninit) (devices : List Device) (bytes : List Char)
    (p : Property), Reaches u devices → nul ∈ bytes →
    (listing p (cstr bytes) devices).length + 1 ≤ Buffer.listing.size →
    published (handle (cstr bytes) devices Topic.controler (listingRequest p)) =
      [⟨Topic.ui, "\n".toList ++ devices.flatMap (listed p)⟩] := by
  intro h
  have hstale := h ⟨0, 0⟩ (main ⟨0, 0⟩) ['x', nul] .value .main (by decide) (by decide +kernel)
  exact absurd hstale (by decide +kernel)

/-! ## How long it is -/

theorem length_flatMap_listed (devices : List Device) :
    (devices.flatMap (listed .info)).length =
        (devices.flatMap Device.info).length + devices.length ∧
      (devices.flatMap (listed .value)).length = (devices.flatMap Device.id).length +
        (devices.flatMap Device.value).length + 4 * devices.length := by
  induction devices with
  | nil => exact ⟨rfl, rfl⟩
  | cons d ds ih =>
      obtain ⟨hinfo, hvalue⟩ := ih
      have hnl : "\n".toList.length = 1 := rfl
      have hsep : " : ".toList.length = 3 := rfl
      simp only [List.flatMap_cons, List.length_append, List.length_cons, listed, hnl, hsep]
      omega

theorem Reaches.length {u : Uninit} {devices : List Device} (h : Reaches u devices) :
    devices.length = 12 := by
  have hlen := congrArg List.length h.frames
  rw [List.length_map, List.length_map] at hlen
  exact hlen

theorem Reaches.length_ids {u : Uninit} {devices : List Device} (h : Reaches u devices) :
    (devices.flatMap Device.id).length = 231 := by
  have hframes : ∀ ds : List Device,
      ds.flatMap Device.id = (ds.map Device.frame).flatMap Frame.id := by
    intro ds
    rw [List.flatMap_map]
    rfl
  have hzero : (Kontroler.main u).flatMap Device.id =
      (Kontroler.main ⟨0, 0⟩).flatMap Device.id := rfl
  rw [hframes, h.frames, ← hframes, hzero]
  decide +kernel

theorem Reaches.length_listing {u : Uninit} {devices : List Device} (h : Reaches u devices) :
    (listing .info [] devices).length = 13 + (devices.flatMap Device.info).length ∧
      (listing .value [] devices).length = 280 + (devices.flatMap Device.value).length := by
  obtain ⟨hinfo, hvalue⟩ := length_flatMap_listed devices
  have hlen := h.length
  have hids := h.length_ids
  have hlisting : ∀ p, (listing p [] devices).length =
      1 + (devices.flatMap (listed p)).length := by
    intro p
    rw [listing, List.length_append]
    rfl
  rw [hlisting, hlisting]
  omega

/-! ## Whether it fits -/

/-- Every text written on the way to the reply fits, and the packet with the reply and its
NUL can be received. -/
def ListingFits (devices : List Device) (p : Property) : Prop :=
  let x := handle [] devices Topic.controler (listingRequest p)
  x.Emits Effect.Fits ∧ ∀ m ∈ published x, Deliverable m.topic (m.payload.length + 1)

theorem emits_listing (p : Property) {devices : List Device} (topicName : List Char)
    (h : (listing p [] devices).length ≤ 1399) :
    (handle [] devices topicName (listingRequest p)).Emits Effect.Fits := by
  have hcar := Mes.carried_text (Mes.get p everyDevice)
  have hsplit : strSplit (stringCpy (listingRequest p)) delimiter =
      pure [p.getType.text, allDevices] := by
    rw [listingRequest, hcar.stringCpy, hcar.strSplit]
    rfl
  have hknown : Known devices allDevices := Or.inl rfl
  have hcopy : (Effect.write .messageCpy (listingRequest p)).Safe devices.length := by
    rw [safe_write]
    cases p <;> decide
  have hloop : (answerGet p (listLoop p) [] allDevices devices).Emits
      (Effect.Safe devices.length) := by
    rw [answerGet, if_neg (not_not_intro rfl), safe_strcat_bind]
    refine ⟨by decide, Emits.bind ?_ fun _ _ => emits_publish.mpr (safe_publish _ _)⟩
    refine safe_listLoop p devices _ ?_
    rw [listing, List.length_append] at h
    exact h
  have hsafe : (handle [] devices topicName (listingRequest p)).Emits
      (Effect.Safe devices.length) := by
    rw [handle_of_split hsplit, listingRequest, hcar.stringCpy, emits_write_bind, if_pos hknown,
      emits_write_bind]
    refine ⟨hcopy, hcopy, ?_⟩
    have hdispatch := dispatch_get [] devices (Mes.get p everyDevice).text p everyDevice
    rw [show [p.getType.text, allDevices] = (Mes.get p everyDevice).tokens from rfl, hdispatch,
      emits_map]
    exact hloop
  exact fun e he => (hsafe e he).1

/-- For every reachable table: both listings fit the controller's buffer and the packet of the
command line exactly when the descriptions are at most 997 bytes together and the values at
most 730. -/
theorem listings_fit_iff {u : Uninit} {devices : List Device} (h : Reaches u devices) :
    (∀ p, ListingFits devices p) ↔ (devices.flatMap Device.info).length ≤ 997 ∧
      (devices.flatMap Device.value).length ≤ 730 := by
  obtain ⟨hinfo, hvalue⟩ := h.length_listing
  have htopic : Topic.ui.length = 8 := rfl
  have hpacket : ∀ p, (∀ m ∈ published (handle [] devices Topic.controler (listingRequest p)),
      Deliverable m.topic (m.payload.length + 1)) ↔ (listing p [] devices).length ≤ 1010 := by
    intro p
    rw [published_listing, List.forall_mem_singleton, deliverable_iff]
    show Topic.ui.length + ((listing p [] devices).length + 1) ≤ 1019 ↔ _
    rw [htopic]
    omega
  constructor
  · intro hfits
    have hi := (hpacket .info).mp (hfits .info).2
    have hv := (hpacket .value).mp (hfits .value).2
    omega
  · intro hshort p
    have hp : (listing p [] devices).length ≤ 1010 := by
      cases p with
      | value => omega
      | info => omega
    exact ⟨emits_listing p _ (hp.trans (by decide)), (hpacket p).mpr hp⟩

/-- The tables reached by `PropertyChanged` messages whose new text fits its field. -/
inductive Changed (u : Uninit) : List Device → Prop where
  | main : Changed u (main u)
  | handle {devices devices' : List Device} {stale payload : CStr} {topicName : List Char}
      {p : Property} {id v : Word} {out : List Msg} :
      Changed u devices → (Mes.changed p id v).Carried payload →
      v.text.length + 1 ≤ p.buffer.size →
      completed (handle stale devices topicName payload) = some (devices', out) →
      Changed u devices'

theorem Changed.reaches {u : Uninit} {devices : List Device} (h : Changed u devices) :
    Reaches u devices := by
  induction h with
  | main => exact .main
  | handle _ _ _ hrun ih => exact .handle ih (completed_eq_some.mp hrun).1

theorem Changed.assign {u : Uninit} {devices : List Device} (h : Changed u devices)
    (p : Property) (id v : Word) (hid : (lookup id.text devices).isSome = true)
    (hv : v.text.length + 1 ≤ p.buffer.size) :
    Changed u (assignFirst p id.text v.text devices) := by
  obtain ⟨d, hd⟩ := Option.isSome_iff_exists.mp hid
  have hcar := Mes.carried_text (Mes.changed p id v)
  exact h.handle hcar hv (handle_changed [] devices Topic.controler hcar hd)

def longValue : CStr := List.replicate 99 'x'

theorem isWord_longValue : IsWord longValue := by decide

theorem changed_foldl {u : Uninit} : ∀ (ids : List CStr) {devices : List Device},
    Changed u devices → (∀ id ∈ ids, IsWord id ∧ (lookup id devices).isSome = true) →
    Changed u (ids.foldl (fun ds id => assignFirst .value id longValue ds) devices)
  | [], _, h, _ => h
  | id :: ids, devices, h, hall => by
      obtain ⟨⟨hword, hid⟩, hids⟩ := List.forall_mem_cons.mp hall
      have hone : Changed u (assignFirst .value id longValue devices) :=
        h.assign .value ⟨id, hword⟩ ⟨longValue, isWord_longValue⟩ hid (by decide)
      refine changed_foldl ids hone ?_
      intro x hx
      obtain ⟨hxword, hxid⟩ := hids x hx
      refine ⟨hxword, ?_⟩
      rw [lookup_assignFirst]
      split
      · rw [Option.isSome_map]
        exact hxid
      · exact hxid

theorem listings_fit_main :
    ListingFits (main ⟨0, 0⟩) .info ∧ ListingFits (main ⟨0, 0⟩) .value := by
  have hmain : Reaches ⟨0, 0⟩ (main ⟨0, 0⟩) := .main
  have hfit := (listings_fit_iff hmain).mpr (by decide +kernel)
  exact ⟨hfit .info, hfit .value⟩

theorem listings_overflow : ¬ ∀ (u : Uninit) (devices : List Device), Changed u devices →
    ∀ p, ListingFits devices p := by
  intro h
  have hlong : Changed ⟨0, 0⟩ (((main ⟨0, 0⟩).map Device.id).foldl
      (fun ds id => assignFirst .value id longValue ds) (main ⟨0, 0⟩)) :=
    changed_foldl _ .main (by decide +kernel)
  have hfits := (h ⟨0, 0⟩ _ hlong .value).2
  rw [published_listing, List.forall_mem_singleton, deliverable_iff] at hfits
  exact absurd hfits (by decide +kernel)

end Kontroler

end SmartHome
