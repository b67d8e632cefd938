import TelegramClient.Database.PeerIds
import TelegramClient.Lib.KeyedTable

/-!
# Stored messages

The messages of all chats that are not channels stand in one table, whose primary key is the id of the message.
-/

namespace TelegramClient.Database

inductive TGMediaAttachment where
  | image (imageId localImageId : Int) (caption : String)
  | video (videoId localVideoId : Int) (caption : String)
  /-- `hasNoText` : the document is a sticker or an animation. -/
  | document (documentId localDocumentId : Int) (caption fileName : String) (hasNoText : Bool)
  /-- What a service message tells; `clearsChat` is `TGMessageActionClearChat`. -/
  | action (clearsChat : Bool)
  /-- An attachment of another kind. -/
  | other (type : Nat)
deriving DecidableEq

def TGMediaAttachment.expired : TGMediaAttachment → TGMediaAttachment
  | .image _ _ caption => .image 0 0 caption
  | .video _ _ caption => .video 0 0 caption
  | .document _ _ caption _ _ => .document 0 0 caption "" false
  | attachment => attachment

structure TGMessage where
  mid : Int
  cid : Int
  randomId : Int
  messageLifetime : Int
  text : String
  mediaAttachments : List TGMediaAttachment
  outgoing : Bool
  date : Int
  /-- The bit of `flags`. -/
  containsUnseenMention : Bool
  /-- `contentProperties` has an entry for `contentsRead`. -/
  contentsRead : Bool
deriving DecidableEq

abbrev MessageTable := KeyedTable TGMessage.mid

namespace TGMessage

/-- `actionInfo` is the last attachment that is an action. -/
def clearsChat (message : TGMessage) : Bool :=
  message.mediaAttachments.foldl (fun clears attachment =>
    match attachment with
    | .action clearsChat => clearsChat
    | _ => clears) false

/-- Images, videos and documents are replaced by empty ones with the same caption. -/
def filterOutExpiredMedia (message : TGMessage) : TGMessage :=
  { message with mediaAttachments := message.mediaAttachments.map TGMediaAttachment.expired }

/-- The columns that `_updateMessage:toMessage:` writes when the id stays the same. -/
def updateTo (message updated : TGMessage) : TGMessage :=
  { message with
    messageLifetime := updated.messageLifetime
    text := updated.text
    mediaAttachments := updated.mediaAttachments
    date := updated.date
    containsUnseenMention := updated.containsUnseenMention
    contentsRead := updated.contentsRead }

/-- The columns that it writes when the id changes. -/
def moveTo (message updated : TGMessage) : TGMessage :=
  { message with
    mid := updated.mid
    mediaAttachments := updated.mediaAttachments
    date := updated.date
    containsUnseenMention := updated.containsUnseenMention
    contentsRead := updated.contentsRead }

def setText (message previous updated : TGMessage) : TGMessage :=
  if previous.text = updated.text then message else { message with text := updated.text }

theorem setText_eq (message previous updated : TGMessage) :
    ∃ text, message.setText previous updated = { message with text := text } := by
  unfold setText
  split
  · exact ⟨message.text, rfl⟩
  · exact ⟨updated.text, rfl⟩

theorem mid_setText (previous updated message : TGMessage) : (message.setText previous updated).mid = message.mid := by
  obtain ⟨text, heq⟩ := setText_eq message previous updated
  rw [heq]

theorem mid_updateTo (updated message : TGMessage) : (message.updateTo updated).mid = message.mid := rfl

/-- The text that is put into the search index: the one of the last attachment that has a text, or the text of the
message. -/
def indexText (message : TGMessage) : String :=
  let text := message.mediaAttachments.foldl (fun text attachment =>
    match attachment with
    | .image _ _ caption | .video _ _ caption => caption
    | .document _ _ _ fileName hasNoText => if hasNoText then "" else fileName
    | _ => text) ""
  if text = "" then message.text else text

end TGMessage

end TelegramClient.Database
