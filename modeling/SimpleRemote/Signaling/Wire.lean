import SimpleRemote.Library.JsonText
import SimpleRemote.Signaling.Room

namespace SimpleRemote
open ByteCodec Json

-- what serde_json writes for a message to the server
def HostToServer.json : HostToServer → Text
  | .auth sig => Signaling.typed "auth" [("sig".toList, utf16 sig)]
  | .relay data => Signaling.typed "relay" [("data".toList, utf16 data)]
  | .kick => Signaling.typed "kick" []

namespace Signaling

def ServerFrame.toHost : ServerFrame → Option ServerToHost
  | .challenge nonce id => some (.challenge nonce id)
  | .registered id => some (.registered id)
  | .viewerJoined => some .viewerJoined
  | .viewerLeft => some .viewerLeft
  | .relay data => (toText data).map .relay
  | .joined => none
  | .hostLeft => none

-- serde_json at the type `ServerToHost`, of which only the frames the room writes matter
structure SerdeJson where
  readHost : Text → Option ServerToHost
  reads : ∀ f : ServerFrame, readHost f.json = f.toHost

theorem parse_typed (t : String) (fields : List (Text × Utf16)) :
    parse (.text (typed t fields)) =
      some (.obj ((("t".toList, utf16 t.toList) :: fields).map Json.stringField)) := by
  rw [parse, typed, parse_stringify]

def textField (msg : Value) (key : String) : Option Text := (stringField msg key).bind toText

def readTyped (msg : Value) (t : Text) : Option ServerToHost :=
  if t = "challenge".toList then
    (textField msg "nonce").bind fun nonce => (textField msg "id").map (.challenge nonce)
  else if t = "registered".toList then (textField msg "id").map .registered
  else if t = "viewer_joined".toList then some .viewerJoined
  else if t = "viewer_left".toList then some .viewerLeft
  else if t = "relay".toList then (textField msg "data").map .relay
  else none

def sampleReadHost (s : Text) : Option ServerToHost :=
  (parse (.text s)).bind fun msg => (textField msg "t").bind (readTyped msg)

theorem stringField_fields (fields : List (Text × Utf16)) (key : String) :
    stringField (.obj (fields.map Json.stringField)) key = lookup fields key.toList := by
  rw [stringField, get_fields]
  cases lookup fields key.toList <;> rfl

theorem read_typed (t : String) (fields : List (Text × Utf16))
    (ht : lookup (("t".toList, utf16 t.toList) :: fields) "t".toList = some (utf16 t.toList)) :
    sampleReadHost (typed t fields) =
      readTyped (.obj ((("t".toList, utf16 t.toList) :: fields).map Json.stringField)) t.toList := by
  rw [sampleReadHost, parse_typed, Option.bind_some, textField, stringField_fields, ht,
    Option.bind_some, toText_utf16, Option.bind_some]

theorem textField_fields {fields : List (Text × Utf16)} {key : String} {d : Utf16}
    (h : lookup fields key.toList = some d) :
    textField (.obj (fields.map Json.stringField)) key = toText d := by
  rw [textField, stringField_fields, h, Option.bind_some]

def SerdeJson.sample : SerdeJson where
  readHost := sampleReadHost
  reads f := by
    cases f with
    | challenge nonce id =>
        rw [ServerFrame.json, read_typed _ _ rfl, readTyped, if_pos rfl,
          textField_fields (d := utf16 nonce) rfl, textField_fields (d := utf16 id) rfl,
          toText_utf16, toText_utf16]
        rfl
    | registered id =>
        rw [ServerFrame.json, read_typed _ _ rfl, readTyped, if_neg (by decide), if_pos rfl,
          textField_fields (d := utf16 id) rfl, toText_utf16]
        rfl
    | relay data =>
        rw [ServerFrame.json, read_typed _ _ rfl, readTyped, if_neg (by decide),
          if_neg (by decide), if_neg (by decide), if_neg (by decide), if_pos rfl,
          textField_fields (d := data) rfl]
        rfl
    | _ =>
        rw [ServerFrame.json, read_typed _ _ rfl]
        rfl

theorem hostFrame_parse (m : HostToServer) : ∃ msg, parse (.text m.json) = some msg ∧
    match m with
    | .auth sig => authSig msg = some (utf16 sig)
    | .relay data => relayData msg = some (utf16 data)
    | .kick => relayData msg = none ∧ hasType msg "kick" = true := by
  cases m with
  | auth sig =>
      refine ⟨_, parse_typed .., ?_⟩
      rw [authSig, hasType, stringField_fields, stringField_fields]
      rfl
  | relay data =>
      refine ⟨_, parse_typed .., ?_⟩
      rw [relayData, hasType, stringField_fields, stringField_fields]
      rfl
  | kick =>
      refine ⟨_, parse_typed .., ?_, ?_⟩
      · rw [relayData, hasType, stringField_fields]
        rfl
      · rw [hasType, stringField_fields]
        rfl

end Signaling

end SimpleRemote
