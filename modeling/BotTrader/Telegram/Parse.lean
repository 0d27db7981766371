import BotTrader.Automata.Handler
import BotTrader.Boost.Ptree

/-! The updates of Telegram as the code parses them. Its numbers are converted to `int`,
and a number that is not one raises; the fields that are read are listed here, and a tree
is parsed if all of them are convertible. -/

namespace BotTrader.Telegram

open Automata Boost

structure User where
  id : ℤ := 0
  firstName : String := ""
  lastName : String := ""
  isBot : Bool := false

/-- `Chat::chat_type` -/
inductive ChatType where
  | unknown | privat | group | supergroup | channel
  deriving DecidableEq, Repr

structure Chat where
  id : ℤ := 0
  type : ChatType := .unknown
  firstName : String := ""
  lastName : String := ""

/-- `MessageEntity::entity_type` -/
inductive EntityType where
  | unknown | mention | hashtag | bot_command | url | email | bold | italic | code | pre
  | text_link
  deriving DecidableEq, Repr

structure MessageEntity where
  type : EntityType := .unknown
  offset : ℤ := 0
  length : ℤ := 0

structure Message where
  messageId : ℤ := 0
  sender : User := {}
  chat : Chat := {}
  date : UInt32 := 0
  editDate : UInt32 := 0
  text : String := ""
  entities : List MessageEntity := []

structure Update where
  updateId : ℤ := 0
  message : Message := {}

def getChatType : String → ChatType
  | "private" => .privat
  | "group" => .group
  | "supergroup" => .supergroup
  | "channel" => .channel
  | _ => .unknown

def getEntityType : String → EntityType
  | "pre" => .pre
  | "url" => .url
  | "bold" => .bold
  | "code" => .code
  | "email" => .email
  | "italic" => .italic
  | "hashtag" => .hashtag
  | "mention" => .mention
  | "bot_command" => .bot_command
  | "text_link" => .text_link
  | _ => .unknown

/-! ### The loops -/

def entityField (entity : MessageEntity) (v : String × Ptree) : Except Exc MessageEntity := do
  if v.1 = "offset" then return { entity with offset := ← v.2.getInt }
  else if v.1 = "length" then return { entity with length := ← v.2.getInt }
  else if v.1 = "type" then return { entity with type := getEntityType v.2.data }
  else return entity

def parseEntities (ept : Ptree) (entities : List MessageEntity) :
    Except Exc (List MessageEntity) :=
  ept.children.foldlM (fun entities it => do
    return entities ++ [← it.2.children.foldlM entityField {}]) entities

def userField (user : User) (v : String × Ptree) : Except Exc User := do
  if v.1 = "id" then return { user with id := ← v.2.getInt }
  else if v.1 = "first_name" then return { user with firstName := v.2.data }
  else if v.1 = "last_name" then return { user with lastName := v.2.data }
  else if v.1 = "is_bot" then return { user with isBot := v.2.data = "true" }
  else return user

def parseUser (upt : Ptree) (user : User) : Except Exc User := upt.children.foldlM userField user

/-- The id of the chat goes to `m_chat_id` too, here the second component. -/
def chatField (chat : Chat × ℤ) (v : String × Ptree) : Except Exc (Chat × ℤ) := do
  if v.1 = "id" then
    let id ← v.2.getInt
    return ({ chat.1 with id := id }, id)
  else if v.1 = "first_name" then return ({ chat.1 with firstName := v.2.data }, chat.2)
  else if v.1 = "last_name" then return ({ chat.1 with lastName := v.2.data }, chat.2)
  else if v.1 = "type" then return ({ chat.1 with type := getChatType v.2.data }, chat.2)
  else return chat

def parseChat (cpt : Ptree) (chat : Chat × ℤ) : Except Exc (Chat × ℤ) :=
  cpt.children.foldlM chatField chat

/-- The two chains of conditions of the source as one: no key is in both. -/
def messageField (message : Message × ℤ) (v : String × Ptree) : Except Exc (Message × ℤ) := do
  let m := message.1
  if v.1 = "message_id" then return ({ m with messageId := ← v.2.getInt }, message.2)
  else if v.1 = "date" then return ({ m with date := .ofInt (← v.2.getInt) }, message.2)
  else if v.1 = "edit_date" then return ({ m with editDate := .ofInt (← v.2.getInt) }, message.2)
  else if v.1 = "text" then return ({ m with text := v.2.data }, message.2)
  else if v.2.children.isEmpty then return message
  else if v.1 = "chat" then
    let chat ← parseChat v.2 (m.chat, message.2)
    return ({ m with chat := chat.1 }, chat.2)
  else if v.1 = "from" then return ({ m with sender := ← parseUser v.2 m.sender }, message.2)
  else if v.1 = "entities" then
    return ({ m with entities := ← parseEntities v.2 m.entities }, message.2)
  else return message

def parseMessage (mpt : Ptree) (message : Message × ℤ) : Except Exc (Message × ℤ) :=
  mpt.children.foldlM messageField message

def updateField (message : Message × ℤ) (sv : String × Ptree) : Except Exc (Message × ℤ) :=
  if sv.2.children.isEmpty then .ok message
  else if sv.1 = "message" ∨ sv.1 = "edited_message" then parseMessage sv.2 message
  else .ok message

/-- The message of an update, and `m_chat_id` after it. -/
def parseUpdate (upt : Ptree) (chatId : ℤ) : Except Exc (Message × ℤ) :=
  upt.children.foldlM updateField ({}, chatId)

/-! ### What is convertible -/

def IsInt (t : Ptree) : Prop := ∃ n, t.getInt = .ok n

/-- The children under the keys are numbers. -/
def IntsAt (keys : List String) (t : Ptree) : Prop := ∀ v ∈ t.children, v.1 ∈ keys → IsInt v.2

structure MessageConvertible (t : Ptree) : Prop where
  numbers : IntsAt ["message_id", "date", "edit_date"] t
  ids : ∀ v ∈ t.children, v.1 = "chat" ∨ v.1 = "from" → IntsAt ["id"] v.2
  entities : ∀ v ∈ t.children, v.1 = "entities" → ∀ it ∈ v.2.children,
    IntsAt ["offset", "length"] it.2

/-- The id of an update that has one, and all that is then read of it. -/
def UpdateConvertible (t : Ptree) : Prop :=
  ∀ v ∈ t.children, v.1 = "update_id" → IsInt v.2 ∧
    ∀ sv ∈ t.children, sv.1 = "message" ∨ sv.1 = "edited_message" → MessageConvertible sv.2

/-- All fields of the updates in an answer are convertible. -/
def Convertible (tree : Ptree) : Prop :=
  ∀ rv ∈ tree.children, rv.1 = "result" → ∀ it ∈ rv.2.children, UpdateConvertible it.2

theorem exists_entityField (e : MessageEntity) (v : String × Ptree) :
    (∃ b, entityField e v = .ok b) ↔ (v.1 ∈ ["offset", "length"] → IsInt v.2) := by
  unfold entityField
  split
  · next h => exact (exists_map_eq_ok v.2.getInt _).trans (by simp [h, IsInt])
  split
  · next h => exact (exists_map_eq_ok v.2.getInt _).trans (by simp [h, IsInt])
  next h h' => split <;> simp [h, h']

theorem exists_parseEntities (t : Ptree) (es : List MessageEntity) :
    (∃ b, parseEntities t es = .ok b) ↔ ∀ it ∈ t.children, IntsAt ["offset", "length"] it.2 := by
  refine exists_foldlM_eq_ok (fun es it => ?_) t.children es
  exact (exists_map_eq_ok _ _).trans (exists_foldlM_eq_ok exists_entityField it.2.children {})

theorem exists_parseUser (t : Ptree) (user : User) :
    (∃ b, parseUser t user = .ok b) ↔ IntsAt ["id"] t := by
  refine exists_foldlM_eq_ok (fun user v => ?_) t.children user
  unfold userField
  split
  · next h => exact (exists_map_eq_ok v.2.getInt _).trans (by simp [h, IsInt])
  next h => split <;> [skip; split <;> [skip; split]] <;> simp [h]

theorem exists_parseChat (t : Ptree) (chat : Chat × ℤ) :
    (∃ b, parseChat t chat = .ok b) ↔ IntsAt ["id"] t := by
  refine exists_foldlM_eq_ok (fun chat v => ?_) t.children chat
  unfold chatField
  split
  · next h => exact (exists_map_eq_ok v.2.getInt fun id => _).trans (by simp [h, IsInt])
  next h => split <;> [skip; split <;> [skip; split]] <;> simp [h]

/-- What is converted of a field of a message. -/
def FieldConvertible (v : String × Ptree) : Prop :=
  (v.1 ∈ ["message_id", "date", "edit_date"] → IsInt v.2) ∧
    (v.1 = "chat" ∨ v.1 = "from" → IntsAt ["id"] v.2) ∧
    (v.1 = "entities" → ∀ it ∈ v.2.children, IntsAt ["offset", "length"] it.2)

theorem exists_messageField (m : Message × ℤ) (v : String × Ptree) :
    (∃ b, messageField m v = .ok b) ↔ FieldConvertible v := by
  unfold messageField FieldConvertible
  split
  · next h => exact (exists_map_eq_ok v.2.getInt _).trans (by simp [h, IsInt])
  split
  · next h => exact (exists_map_eq_ok v.2.getInt _).trans (by simp [h, IsInt])
  split
  · next h => exact (exists_map_eq_ok v.2.getInt _).trans (by simp [h, IsInt])
  split
  · next h => simp [h]
  split
  · next h₁ h₂ h₃ _ h =>
    -- a field without children has nothing to convert
    have hn : v.2.children = [] := List.isEmpty_iff.mp h
    simp [h₁, h₂, h₃, IntsAt, hn]
  split
  · next h =>
    exact (exists_map_eq_ok _ _).trans ((exists_parseChat v.2 _).trans (by simp [h]))
  split
  · next h =>
    exact (exists_map_eq_ok _ _).trans ((exists_parseUser v.2 _).trans (by simp [h]))
  split
  · next h =>
    exact (exists_map_eq_ok _ _).trans ((exists_parseEntities v.2 _).trans (by simp [h]))
  next h₁ h₂ h₃ _ _ h₄ h₅ h₆ => simp [h₁, h₂, h₃, h₄, h₅, h₆]

theorem exists_parseMessage (t : Ptree) (m : Message × ℤ) :
    (∃ b, parseMessage t m = .ok b) ↔ MessageConvertible t := by
  refine (exists_foldlM_eq_ok exists_messageField t.children m).trans ⟨fun h => ?_, fun h => ?_⟩
  · exact ⟨fun v hv => (h v hv).1, fun v hv => (h v hv).2.1, fun v hv => (h v hv).2.2⟩
  · exact fun v hv => ⟨h.numbers v hv, h.ids v hv, h.entities v hv⟩

/-- A message without children is passed over, and has nothing to convert. -/
theorem messageConvertible_of_isEmpty {t : Ptree} (h : t.children.isEmpty) :
    MessageConvertible t := by
  have hn : t.children = [] := List.isEmpty_iff.mp h
  constructor <;> simp [IntsAt, hn]

theorem exists_parseUpdate (t : Ptree) (chatId : ℤ) :
    (∃ b, parseUpdate t chatId = .ok b) ↔
      ∀ sv ∈ t.children, sv.1 = "message" ∨ sv.1 = "edited_message" → MessageConvertible sv.2 := by
  refine exists_foldlM_eq_ok (fun m sv => ?_) t.children _
  unfold updateField
  split
  · next h => simp [messageConvertible_of_isEmpty h]
  · split
    · next h => simp only [h, true_imp_iff, exists_parseMessage]
    · next h => simp [h]

end BotTrader.Telegram
