import EditorLint.Server.Message

/-!
The methods that the editor may call. Some the server serves, some it knows without serving them,
and their parameters are checked nevertheless; all others are unknown.
-/

namespace EditorLint.Server

open Json (Value)

inductive Method where
  | start
  | shutdown
  | exit
  | request (decode : Value → Option Message)
  /-- A request that is known and not served. -/
  | unservedRequest (wellFormed : Value → Bool)
  | notification (decode : Value → Option Message)
  | unservedNotification

namespace Method

/-! ## Parameters of requests that are not served -/

/-- A member that must be there, and what it must be. -/
abbrev Part := String × (Value → Bool)

def document : Part := ("textDocument", fun value => (Message.documentOf? value).isSome)

def position : Part := ("position", fun value => (Position.ofValue? value).isSome)

def range : Part := ("range", fun value => (Range.ofValue? value).isSome)

def textPart (name : String) : Part := (name, fun value => value.string?.isSome)

def flagPart (name : String) : Part := (name, fun value => value.bool?.isSome)

def listPart (name : String) : Part := (name, fun value => value.array?.isSome)

def recordPart (name : String) : Part := (name, fun value => (Message.record? value).isSome)

def wellFormed (parts : List Part) (value : Value) : Bool :=
  Message.isRequest value && parts.all fun (name, check) => (value.member? name).any check

def placeRequests : List String :=
  ["declaration", "definition", "typeDefinition", "implementation", "prepareCallHierarchy",
    "prepareTypeHierarchy", "documentHighlight", "hover", "moniker", "completion",
    "signatureHelp", "prepareRename", "linkedEditingRange"]

def documentRequests : List String :=
  ["documentLink", "codeLens", "foldingRange", "documentSymbol", "semanticTokens/full",
    "diagnostic", "documentColor"]

def rangeRequests : List String := ["semanticTokens/range", "inlayHint"]

def otherRequests : List (String × List Part) :=
  [("textDocument/references", [document, position, recordPart "context"]),
    ("textDocument/rename", [document, position, textPart "newName"]),
    ("textDocument/onTypeFormatting", [document, position, textPart "ch", recordPart "options"]),
    ("textDocument/formatting", [document, recordPart "options"]),
    ("textDocument/rangeFormatting", [document, range, recordPart "options"]),
    ("textDocument/colorPresentation", [document, range, recordPart "color"]),
    ("textDocument/inlineValue", [document, range, recordPart "context"]),
    ("textDocument/selectionRange", [document, listPart "positions"]),
    ("textDocument/semanticTokens/full/delta", [document, textPart "previousResultId"]),
    ("textDocument/willSaveWaitUntil",
      [document, ("reason", fun value => (value.signed? 32).isSome)]),
    ("documentLink/resolve", [range]),
    ("codeLens/resolve", [range]),
    ("codeAction/resolve", [textPart "title"]),
    ("completionItem/resolve", [textPart "label"]),
    ("inlayHint/resolve", [position, ("label", fun value => !(value matches .null))]),
    ("callHierarchy/incomingCalls", [recordPart "item"]),
    ("callHierarchy/outgoingCalls", [recordPart "item"]),
    ("typeHierarchy/supertypes", [recordPart "item"]),
    ("typeHierarchy/subtypes", [recordPart "item"]),
    ("workspace/symbol", [textPart "query"]),
    ("workspaceSymbol/resolve", [textPart "name", recordPart "location"]),
    ("workspace/diagnostic", [listPart "previousResultIds"]),
    ("workspace/executeCommand", [textPart "command"]),
    ("workspace/willCreateFiles", [listPart "files"]),
    ("workspace/willRenameFiles", [listPart "files"]),
    ("workspace/willDeleteFiles", [listPart "files"])]

def unservedRequests : List (String × List Part) :=
  placeRequests.map ("textDocument/" ++ ·, [document, position])
    ++ documentRequests.map ("textDocument/" ++ ·, [document])
    ++ rangeRequests.map ("textDocument/" ++ ·, [document, range])
    ++ otherRequests

def unservedNotifications : List String :=
  ["textDocument/willSave", "workspace/didChangeWorkspaceFolders",
    "workspace/didChangeWatchedFiles", "workspace/didCreateFiles", "workspace/didRenameFiles", "workspace/didDeleteFiles"]

def ofName? : String → Option Method
  | "initialize" => some start
  | "shutdown" => some shutdown
  | "exit" => some exit
  | "initialized" => some (notification Message.started?)
  | "textDocument/didOpen" => some (notification Message.didOpen?)
  | "textDocument/didChange" => some (notification Message.didChange?)
  | "textDocument/didSave" => some (notification Message.didSave?)
  | "textDocument/didClose" => some (notification Message.didClose?)
  | "workspace/didChangeConfiguration" => some (notification Message.didChangeConfiguration?)
  | "textDocument/codeAction" => some (request Message.codeAction?)
  | name =>
    if name ∈ unservedNotifications then some unservedNotification
    else (unservedRequests.lookup name).map fun parts => unservedRequest (wellFormed parts)

end Method

end EditorLint.Server
