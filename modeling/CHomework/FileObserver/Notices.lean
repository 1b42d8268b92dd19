import CHomework.FileObserver.EventBuffer
import CHomework.Lib.Utf8

namespace CHomework.FileObserver

open CHomework.Buffer
open CHomework.CString
open CHomework.LittleEndian
open CHomework.Utf8

/-- An event together with the results of the calls that it leads to. -/
def eventOf (name : CStr) (mask : UInt32) (calls : Calls) : Event where
  mask := mask
  name := name
  opens := calls.opens
  size := calls.size
  sends := calls.sends

/-- An event as the kernel writes it. Its name is padded with at least one NUL. An
event without a name has no padding and none of the three changes in its mask. -/
structure Notice where
  wd : UInt32
  mask : UInt32
  cookie : UInt32
  name : CStr
  pad : Nat
  fits : name.bytes.length + pad < 2 ^ 32
  padded : name.bytes ≠ [] → 0 < pad
  nameless : name.bytes = [] →
    pad = 0 ∧ mask &&& inCreate = 0 ∧ mask &&& inDelete = 0 ∧ mask &&& inModify = 0

namespace Notice

variable (n : Notice)

def len : UInt32 := UInt32.ofNat (n.name.bytes.length + n.pad)

def encode : List UInt8 :=
  toBytes 4 n.wd.toNat ++ (toBytes 4 n.mask.toNat ++ (toBytes 4 n.cookie.toNat ++
    (toBytes 4 n.len.toNat ++ (n.name.bytes ++ List.replicate n.pad 0))))

def event (calls : Calls) : Event := eventOf n.name n.mask calls

theorem toNat_len : n.len.toNat = n.name.bytes.length + n.pad := by
  rw [len, UInt32.toNat_ofNat', Nat.mod_eq_of_lt n.fits]

theorem length_encode : n.encode.length = inotifyEventSize + n.len.toNat := by
  simp only [encode, List.length_append, length_toBytes, List.length_replicate, toNat_len,
    inotifyEventSize]
  omega

end Notice

theorem prefix_drop_add {a b buf : List UInt8} {p : Nat} (h : a ++ b <+: buf.drop p) :
    b <+: buf.drop (p + a.length) := by
  obtain ⟨rest, hrest⟩ := h
  refine ⟨rest, ?_⟩
  rw [← List.drop_drop, ← hrest, List.append_assoc, List.drop_left]

theorem field_of_bytes {buf : List UInt8} {i : Nat} {v : UInt32}
    (h : toBytes 4 v.toNat <+: buf.drop i) : field buf i = some v := by
  obtain ⟨rest, hrest⟩ := h
  have hlen : 4 ≤ (buf.drop i).length := by
    rw [← hrest, List.length_append, length_toBytes]
    omega
  have hroom : i + 4 ≤ buf.length := by
    rw [List.length_drop] at hlen
    omega
  have htake : (buf.drop i).take 4 = toBytes 4 v.toNat := by
    rw [← hrest, List.take_left' (length_toBytes 4 _)]
  rw [field, loadRange_eq hroom, htake]
  show some (UInt32.ofNat (ofBytes (toBytes 4 v.toNat))) = some v
  rw [ofBytes_toBytes v.toNat_lt, UInt32.ofNat_toNat]

/-- The parts of an event in the buffer. -/
structure LiesAt (n : Notice) (buf : List UInt8) (p : Nat) : Prop where
  mask : field buf (p + 4) = some n.mask
  len : field buf (p + 12) = some n.len
  name : n.name.bytes ++ List.replicate n.pad 0 <+: buf.drop (p + inotifyEventSize)

theorem liesAt_of_encode {n : Notice} {buf : List UInt8} {p : Nat}
    (h : n.encode <+: buf.drop p) : LiesAt n buf p := by
  have hmask := prefix_drop_add h
  have hcookie := prefix_drop_add hmask
  have hlen := prefix_drop_add hcookie
  have hname := prefix_drop_add hlen
  simp only [length_toBytes, Nat.add_assoc, Nat.reduceAdd] at hmask hcookie hlen hname
  exact
    { mask := field_of_bytes ((List.prefix_append _ _).trans hmask)
      len := field_of_bytes ((List.prefix_append _ _).trans hlen)
      name := hname }

theorem zero_notMem_snprintf (size : Nat) {text : List UInt8} (h : (0 : UInt8) ∉ text) :
    (0 : UInt8) ∉ snprintf size text :=
  fun hzero => h (List.mem_of_mem_take hzero)

theorem zero_notMem_nameMsg (name : CStr) {before after : String}
    (hbefore : 0 ∉ before.toList.map Char.toNat) (hafter : 0 ∉ after.toList.map Char.toNat) :
    (0 : UInt8) ∉ ascii before ++ name.bytes ++ ascii after := by
  simp only [List.mem_append, not_or]
  exact ⟨⟨zero_notMem_toUTF8 hbefore, name.noNul⟩, zero_notMem_toUTF8 hafter⟩

theorem zero_notMem_createdMsg (name : CStr) : (0 : UInt8) ∉ createdMsg name :=
  zero_notMem_snprintf _ (zero_notMem_nameMsg name (by decide) (by decide))

theorem zero_notMem_deletedMsg (name : CStr) : (0 : UInt8) ∉ deletedMsg name :=
  zero_notMem_snprintf _ (zero_notMem_nameMsg name (by decide) (by decide))

theorem zero_notMem_sizeMsg (size : Int64) : (0 : UInt8) ∉ sizeMsg size := by
  apply zero_notMem_snprintf
  simp only [List.mem_append, not_or]
  exact ⟨⟨zero_notMem_toUTF8 (by decide), zero_notMem_toUTF8 (zero_notMem_toString _)⟩,
    zero_notMem_toUTF8 (by decide)⟩

theorem length_snprintf_lt (text : List UInt8) : (snprintf msgSize text).length < msgSize := by
  rw [snprintf, List.length_take, msgSize]
  omega

theorem readString_of_storeRange (text : List UInt8) (hlen : text.length < msgSize)
    (hnul : (0 : UInt8) ∉ text) :
    ∃ msg, storeRange (List.replicate msgSize 0) (text ++ [0]) = some msg ∧
      readString msg = some { bytes := text, noNul := hnul } := by
  have hroom : (text ++ [0]).length ≤ msgSize := by
    rw [List.length_append, List.length_singleton]
    omega
  refine ⟨_, storeRange_replicate 0 hroom, ?_⟩
  rw [List.append_assoc]
  exact readString_append_replicate (n := _ + 1) ⟨_, hnul⟩ (Nat.succ_pos _)

theorem handleEvent_eventOf (path : CStr) (m : Monitor) (mask : UInt32) (calls : Calls) :
    handleEvent path m (eventOf path mask calls) =
      if mask &&& inCreate ≠ 0 then
        some ((m.fopen calls.opens).send (createdMsg path) calls.sends)
      else if mask &&& inDelete ≠ 0 then
        m.fclose.bind fun m => some (m.send (deletedMsg path) calls.sends)
      else if mask &&& inModify ≠ 0 then
        (m.fstat calls.size).bind fun m => some (m.send (sizeMsg m.fileStatSize) calls.sends)
      else some (m.send [] calls.sends) := by
  have hcmp : strcmp path path = 0 := (strcmp_eq_zero_iff _ _).mpr rfl
  rw [handleEvent]
  exact if_pos hcmp

theorem handleEvent_of_ne {path : CStr} (m : Monitor) {event : Event} (h : event.name ≠ path) :
    handleEvent path m event = some m := by
  rw [handleEvent, if_neg]
  rwa [strcmp_eq_zero_iff]

theorem handleEvent_eventOf_of_nameless {n : Notice} (h : n.name.bytes = []) (path : CStr)
    (m : Monitor) (calls : Calls) : handleEvent path m (eventOf path n.mask calls) = some m := by
  rcases n.nameless h with ⟨-, hcreate, hdelete, hmodify⟩
  have hsend : m.send [] calls.sends = m := by
    cases hsends : calls.sends with
    | false => rfl
    | true => simp [Monitor.send]
  rw [handleEvent_eventOf, if_neg (not_not.mpr hcreate), if_neg (not_not.mpr hdelete),
    if_neg (not_not.mpr hmodify), hsend]

theorem handleEvent_event_of_nameless {n : Notice} (h : n.name.bytes = []) (path : CStr)
    (m : Monitor) (calls : Calls) : handleEvent path m (n.event calls) = some m := by
  by_cases hname : n.name = path
  · rw [Notice.event, hname]
    exact handleEvent_eventOf_of_nameless h path m calls
  · exact handleEvent_of_ne m hname

section Visit

variable {path : CStr} {calls : Calls} {buf : List UInt8} {p : Nat} {w : Watch} {mask : UInt32}

theorem visit_of_match (hmatch : path.bytes ++ [0] <+: buf.drop (p + inotifyEventSize))
    (hmask : field buf (p + 4) = some mask) (hmsg : w.msg = List.replicate msgSize 0) :
    visit path calls buf p w =
      (handleEvent path w.monitor (eventOf path mask calls)).map fun m =>
        { w with monitor := m } := by
  have hmatched := (strcmpIn_eq_zero_iff path.noNul).mpr hmatch
  rcases w with ⟨monitor, msg, time⟩
  obtain rfl : msg = List.replicate msgSize 0 := hmsg
  simp only [visit, hmatched, hmask, readString_of_terminated hmatch, branch,
    handleEvent_eventOf, if_true, Option.bind_eq_bind, Option.bind_some, Option.pure_def]
  by_cases hcreate : mask &&& inCreate ≠ 0
  · obtain ⟨msg, hstore, hread⟩ := readString_of_storeRange (createdMsg path)
      (length_snprintf_lt _) (zero_notMem_createdMsg path)
    simp only [if_pos hcreate, hstore, hread, Option.bind_some, Option.map_some]
  simp only [if_neg hcreate]
  by_cases hdelete : mask &&& inDelete ≠ 0
  · obtain ⟨msg, hstore, hread⟩ := readString_of_storeRange (deletedMsg path)
      (length_snprintf_lt _) (zero_notMem_deletedMsg path)
    simp only [if_pos hdelete, hstore, Option.bind_some]
    cases monitor.fclose with
    | none => rfl
    | some m => simp only [hread, Option.bind_some, Option.map_some]
  simp only [if_neg hdelete]
  by_cases hmodify : mask &&& inModify ≠ 0
  · simp only [if_pos hmodify]
    cases monitor.fstat calls.size with
    | none => rfl
    | some m =>
        obtain ⟨msg, hstore, hread⟩ := readString_of_storeRange (sizeMsg m.fileStatSize)
          (length_snprintf_lt _) (zero_notMem_sizeMsg _)
        simp only [hstore, hread, Option.bind_some, Option.map_some]
  · have hcleared : readString (List.replicate msgSize 0) = some (ofBuffer []) := by decide
    simp only [if_neg hmodify, hcleared, Option.bind_some, Option.map_some]
    rfl

theorem visit_of_mismatch {c : Int} (hcmp : strcmpIn (buf.drop (p + inotifyEventSize)) path.bytes =
    some c) (hc : c ≠ 0) : visit path calls buf p w = some w := by
  simp only [visit, hcmp, Option.bind_eq_bind, Option.bind_some, if_neg hc, Option.pure_def]

theorem visit_of_leaves (hleaves : buf.drop (p + inotifyEventSize) <+: path.bytes) :
    visit path calls buf p w = none := by
  simp only [visit, strcmpIn_eq_none_iff.mpr hleaves, Option.bind_eq_bind, Option.bind_none]

/-- The comparison of a name that is not there runs out of the buffer. -/
def Notice.Leaves (n : Notice) (path : CStr) (buf : List UInt8) (p : Nat) : Prop :=
  n.name.bytes = [] ∧ buf.drop (p + inotifyEventSize) <+: path.bytes

theorem LiesAt.name_zero {n : Notice} (h : LiesAt n buf p) (hne : n.name.bytes ≠ []) :
    n.name.bytes ++ [0] <+: buf.drop (p + inotifyEventSize) := by
  obtain ⟨pad, hpad⟩ : ∃ pad, n.pad = pad + 1 := ⟨n.pad - 1, by have := n.padded hne; omega⟩
  have hname := h.name
  rw [hpad, List.replicate_succ] at hname
  refine List.IsPrefix.trans ?_ hname
  exact (List.prefix_append_right_inj _).mpr ((List.cons_prefix_cons).mpr ⟨rfl, List.nil_prefix⟩)

/-- Whatever lies behind an event without a name, a visit does what the event asks
for. -/
theorem visit_notice {n : Notice} (h : LiesAt n buf p)
    (hmsg : w.msg = List.replicate msgSize 0) (hstays : ¬ n.Leaves path buf p) :
    visit path calls buf p w = (handleEvent path w.monitor (n.event calls)).map fun m =>
      { w with monitor := m } := by
  rcases hcmp : strcmpIn (buf.drop (p + inotifyEventSize)) path.bytes with _ | c
  · have hleaves := strcmpIn_eq_none_iff.mp hcmp
    by_cases hne : n.name.bytes = []
    · exact absurd ⟨hne, hleaves⟩ hstays
    · have hzero : (0 : UInt8) ∈ path.bytes :=
        ((h.name_zero hne).trans hleaves).subset (by simp)
      exact absurd hzero path.noNul
  by_cases hc : c = 0
  · subst hc
    have hmatch := (strcmpIn_eq_zero_iff path.noNul).mp hcmp
    rw [visit_of_match hmatch h.mask hmsg]
    by_cases hne : n.name.bytes = []
    · rw [handleEvent_eventOf_of_nameless hne, handleEvent_event_of_nameless hne]
    · have hname : n.name = path :=
        (ofBuffer_of_terminated (h.name_zero hne)).symm.trans (ofBuffer_of_terminated hmatch)
      rw [Notice.event, hname]
  · rw [visit_of_mismatch hcmp hc]
    by_cases hne : n.name.bytes = []
    · rw [handleEvent_event_of_nameless hne]
      rfl
    · have hname : n.name ≠ path := by
        rintro rfl
        rw [(strcmpIn_eq_zero_iff n.name.noNul).mpr (h.name_zero hne)] at hcmp
        exact hc (Option.some.inj hcmp).symm
      rw [handleEvent_of_ne _ hname]
      rfl

end Visit

end CHomework.FileObserver
