import NimbusCore.Store.Raft

/-!
# Store — an instance of the assumptions

A cipher and a JSON codec that satisfy `Aead.Lawful` and `Json.Lawful`, for use at concrete inputs.

`tagAead` puts the key in front of the text and checks it when it opens.  `sampleJson` maps the few
commands and snapshots of `commandTexts` and `dataTexts` to the texts `encoding/json` writes for
them, and everything else to a self-delimiting form that starts with a zero byte, which no JSON text
does.
-/

namespace NimbusCore.Store

/-! ### The cipher -/

/-- The key in front of the text. -/
def tagAead : Aead where
  lock k _ p := k ++ p
  unlock k _ c := if c.take EncryptionKeySize = k then some (c.drop EncryptionKeySize) else none

theorem tagAead_lawful : tagAead.Lawful where
  open_seal k n p hk := by
    simp [tagAead, ← hk]
  open_other k k' n p hk hk' hne := by
    simp only [tagAead]
    rw [← hk, List.take_left, if_neg fun e => hne e.symm]

/-! ### Framing -/

/-- A self-delimiting form of a byte string. -/
def frame : Bytes → Bytes
  | [] => [0]
  | b :: bs => 1 :: b :: frame bs

/-- Reads one frame off the front. -/
def unframe : Bytes → Option (Bytes × Bytes)
  | 0 :: rest => some ([], rest)
  | 1 :: b :: rest => (unframe rest).map fun r => (b :: r.1, r.2)
  | _ => none

theorem unframe_frame (bs rest : Bytes) : unframe (frame bs ++ rest) = some (bs, rest) := by
  induction bs with
  | nil => rfl
  | cons b bs ih =>
    show unframe (1 :: b :: (frame bs ++ rest)) = _
    rw [unframe, ih]
    rfl

/-- The three fields of a command, framed. -/
def frameCommand (c : Command) : Bytes := frame c.op ++ (frame c.key ++ frame c.value)

def unframeCommand (b : Bytes) : Option Command := do
  let (op, b) ← unframe b
  let (key, b) ← unframe b
  let (value, _) ← unframe b
  if ValidUtf8 key then some ⟨op, key, value⟩ else none

theorem unframeCommand_frame {c : Command} (h : ValidUtf8 c.key) :
    unframeCommand (frameCommand c) = some c := by
  have h₃ : unframe (frame c.value) = some (c.value, []) := by
    simpa using unframe_frame c.value []
  simp [unframeCommand, frameCommand, unframe_frame, h₃, h]

/-- The entries of a map, framed one after the other. -/
def frameEntries : List (GoString × Bytes) → Bytes
  | [] => [0]
  | (k, v) :: es => 1 :: (frame k ++ (frame v ++ frameEntries es))

/-- Reads the entries back into a map; the length of the text bounds their number. -/
def unframeEntries : Nat → Bytes → Option Data
  | fuel + 1, 1 :: b => do
    let (k, b) ← unframe b
    let (v, b) ← unframe b
    let m ← unframeEntries fuel b
    some (m.insert k v)
  | _ + 1, [0] => some ∅
  | _, _ => none

theorem unframeEntries_frame : ∀ (es : List (GoString × Bytes)) (fuel : Nat), es.length < fuel →
    unframeEntries fuel (frameEntries es) = some (es.foldr (fun e m => m.insert e.1 e.2) ∅)
  | [], fuel + 1, _ => rfl
  | (k, v) :: es, fuel + 1, h => by
    have ih := unframeEntries_frame es fuel (by simpa using h)
    show unframeEntries (fuel + 1) (1 :: (frame k ++ (frame v ++ frameEntries es))) = _
    simp [unframeEntries, unframe_frame, ih]

theorem length_frameEntries (es : List (GoString × Bytes)) :
    es.length < (frameEntries es).length := by
  induction es with
  | nil => simp [frameEntries]
  | cons e es ih => simp [frameEntries]; omega

/-! ### The codec -/

/-- Commands with the text `json.Marshal` gives them. -/
def commandTexts : List (Command × Bytes) :=
  [(⟨opPut, goString "a", [1]⟩,
      goString "\x7b\"op\":\"put\",\"key\":\"a\",\"value\":\"AQ==\"\x7d"),
   (⟨opPut, goString "b", []⟩, goString "\x7b\"op\":\"put\",\"key\":\"b\"\x7d"),
   (⟨opDelete, goString "a", []⟩, goString "\x7b\"op\":\"delete\",\"key\":\"a\"\x7d")]

/-- Maps with the text `json.Encoder` gives them. -/
def dataTexts : List (Data × Bytes) :=
  [(∅, goString "\x7b\x7d\n"),
   (Finmap.singleton (goString "a") [1], goString "\x7b\"a\":\"AQ==\"\x7d\n")]

/-- The text of `x`: the one the table has, and otherwise `raw` of it behind a zero byte. -/
def encodeWith {α : Type} [DecidableEq α] (table : List (α × Bytes)) (raw : α → Bytes) (x : α) :
    Bytes :=
  match table.find? fun e => e.1 = x with
  | some e => e.2
  | none => 0 :: raw x

def decodeWith {α : Type} (table : List (α × Bytes)) (parse : Bytes → Option α) (b : Bytes) :
    Option α :=
  match table.find? fun e => e.2 = b with
  | some e => some e.1
  | none => match b with
    | 0 :: b => parse b
    | _ => none

/-- A table of distinct texts, none of which starts with a zero byte, is read back. -/
theorem decodeWith_encodeWith {α : Type} [DecidableEq α] {table : List (α × Bytes)}
    {raw : α → Bytes} {parse : Bytes → Option α} (hn : (table.map Prod.snd).Nodup)
    (h0 : ∀ e ∈ table, e.2.head? ≠ some 0) {x : α} (hx : parse (raw x) = some x) :
    decodeWith table parse (encodeWith table raw x) = some x := by
  simp only [encodeWith]
  cases hf : table.find? (fun e => e.1 = x) with
  | some e =>
    have hmem := List.mem_of_find?_eq_some hf
    have hex : e.1 = x := by simpa using List.find?_some hf
    simp only [decodeWith]
    cases hg : table.find? (fun e' => e'.2 = e.2) with
    | none => exact absurd (List.find?_eq_none.mp hg e hmem) (by simp)
    | some e' =>
      have he' : e'.2 = e.2 := by simpa using List.find?_some hg
      have : e' = e := List.inj_on_of_nodup_map hn (List.mem_of_find?_eq_some hg) hmem he'
      simp [this, hex]
  | none =>
    have hg : table.find? (fun e => e.2 = 0 :: raw x) = none := by
      refine List.find?_eq_none.mpr fun e he h => h0 e he ?_
      rw [show e.2 = 0 :: raw x by simpa using h]
      rfl
    simp only [decodeWith, hg]
    exact hx

/-- The codec of the samples. -/
noncomputable def sampleJson : Json where
  encodeCommand := encodeWith commandTexts frameCommand
  decodeCommand := decodeWith commandTexts unframeCommand
  encodeData := encodeWith dataTexts fun m => frameEntries (m.range m.keys.toList)
  decodeData := decodeWith dataTexts fun b => unframeEntries b.length b

theorem decodeCommand_valid {b : Bytes} {c : Command}
    (h : sampleJson.decodeCommand b = some c) : ValidUtf8 c.key := by
  simp only [sampleJson, decodeWith] at h
  split at h
  · next e he =>
    have hall : ∀ e ∈ commandTexts, ValidUtf8 e.1.key := by decide
    cases h
    exact hall e (List.mem_of_find?_eq_some he)
  · split at h
    · simp only [unframeCommand, Option.bind_eq_bind, Option.bind_eq_some_iff] at h
      obtain ⟨_, -, _, -, _, -, h⟩ := h
      split at h
      · next hv => cases h; exact hv
      · cases h
    · cases h

theorem sampleJson_lawful : sampleJson.Lawful where
  decode_encode c _ hk := by
    refine decodeWith_encodeWith ?_ ?_ (unframeCommand_frame hk) <;> decide
  decode_valid _ _ := decodeCommand_valid
  data_round_trip m _ := by
    have hn : (dataTexts.map Prod.snd).Nodup := by decide
    have h0 : ∀ e ∈ dataTexts, e.2.head? ≠ some 0 := by decide
    have hks : Finmap.IsOrder m.keys.toList m :=
      ⟨m.keys.nodup_toList, m.keys.toList_toFinset⟩
    simp only [sampleJson]
    refine decodeWith_encodeWith hn h0 ?_
    rw [unframeEntries_frame _ _ (length_frameEntries _), hks.foldr_insert_range]

end NimbusCore.Store
