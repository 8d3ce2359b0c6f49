import Yanta.CommandLine.Project

/-!
# Commands on documents

`DocumentCommands` of `internal/commandline/document.go`. A handler calls the document
and tag services, whose answers are given by a function of the calls made so far; a run of
a command is the list of its calls and its result.
-/

namespace Yanta.CommandLine

open Go

/-- A call of `DocumentService` or `TagService`. -/
inductive Call where
  | softDelete (path : String)
  | restore (path : String)
  | hardDelete (path : String)
  | hardDeleteBatch (paths : List String)
  | addTags (path : String) (tagNames : List String)
  | removeTags (path : String) (tagNames : List String)
  | removeAllTags (path : String)
  | getTags (path : String)
deriving DecidableEq, Repr

/-- The answer to a call after earlier ones: an error, or the tags of `GetDocumentTags`. -/
abbrev Services := List Call → Call → Except String (List String)

structure DocumentResultData where
  documentPath : String := ""
  title : String := ""
  flags : List String := []
  requiresConfirmation : Bool := false
  confirmationCommand : String := ""
deriving DecidableEq, Repr

structure DocumentResult where
  success : Bool
  message : String
  data : DocumentResultData := {}
deriving DecidableEq, Repr

/-- The calls of a command and its result. -/
abbrev Outcome := List Call × DocumentResult

inductive DocumentHandler where
  | new
  | doc
  | archiveForce
  | archive
  | unarchive
  | deleteWithFlags
  | deleteForce
  | delete
  | tag
  | untag
  | tags
  | exportMD
  | exportPDF
  | help
deriving DecidableEq, Repr

/-- `\s+(.+)$`. -/
def argument : Regexp := .seq spaces (.seq anything .eot)

/-- `(?:\s+(.+))?$`. -/
def optionalArgument : Regexp := .seq (.opt (.seq spaces anything)) .eot

/-- `\s+(.+)\s+--force$`. -/
def forcedArgument : Regexp := .seq spaces (.seq anything (lastWord "--force"))

/-- `\s+(.+?)(?:\s+--(force|hard))+$`. -/
def flaggedArgument : Regexp :=
  .seq spaces (.seq (.group 1 (.plus false (.set Regexp.dot)))
    (.seq (.plus true flagPattern) .eot))

/-- The patterns of `registerCommands`, in order. -/
def documentCommands : List (Handler DocumentHandler) :=
  [⟨formatCommand "new" optionalArgument, .new⟩,
    ⟨formatCommand "doc" argument, .doc⟩,
    ⟨formatCommand "archive" forcedArgument, .archiveForce⟩,
    ⟨formatCommand "archive" argument, .archive⟩,
    ⟨formatCommand "unarchive" optionalArgument, .unarchive⟩,
    ⟨formatCommand "delete" flaggedArgument, .deleteWithFlags⟩,
    ⟨formatCommand "delete" forcedArgument, .deleteForce⟩,
    ⟨formatCommand "delete" argument, .delete⟩,
    ⟨formatCommand "tag" argument, .tag⟩,
    ⟨formatCommand "untag" argument, .untag⟩,
    ⟨formatCommand "tags" .eot, .tags⟩,
    ⟨formatCommand "export-md" optionalArgument, .exportMD⟩,
    ⟨formatCommand "export-pdf" .eot, .exportPDF⟩,
    ⟨helpPattern, .help⟩]

/-! ## Lists of paths -/

/-- The parts between commas, trimmed, without the empty ones. -/
def commaSeparated (input : String) : List String :=
  ((split input ',').map trimSpace).filter fun part => part != ""

/-- The paths that a handler reads from its argument. -/
def splitPaths (pathsInput : String) : List String :=
  if contains pathsInput "," then commaSeparated pathsInput else [pathsInput]

/-- A handler that needs a list of paths. -/
def withPaths (pathsInput usage : String) (handle : List String → Outcome) : Outcome :=
  if pathsInput = "" then ([], { success := false, message := usage })
  else if splitPaths pathsInput = [] then
    ([], { success := false, message := "no valid paths provided" })
  else handle (splitPaths pathsInput)

/-- One call for each path, up to the first that fails. -/
def eachPath (services : Services) (call : String → Call) (failed : String → String → String)
    (result : DocumentResult) : List Call → List String → Outcome
  | calls, [] => (calls, result)
  | calls, path :: paths =>
    match services calls (call path) with
    | .error e => (calls ++ [call path], { success := false, message := failed path e })
    | .ok _ => eachPath services call failed result (calls ++ [call path]) paths

/-- A single call. -/
def oneCall (services : Services) (call : Call) (failed : String)
    (result : List String → DocumentResult) : Outcome :=
  match services [] call with
  | .error e => ([call], { success := false, message := failed ++ e })
  | .ok answer => ([call], result answer)

/-- The message for one document or for several. -/
def countMessage (paths : List String) (one many : String) : String :=
  if paths.length = 1 then one else decimal paths.length ++ many

/-! ## The handlers -/

section

variable (services : Services) (currentPath : String)

def handleNew (argument : String) : Outcome :=
  ([], { success := true, message := "navigate to new document"
         data := { title := trimSpace argument } })

def handleDoc (argument : String) : Outcome :=
  if trimSpace argument = "" then ([], { success := false, message := "usage: doc <path>" })
  else ([], { success := true, message := "navigate to document"
              data := { documentPath := trimSpace argument } })

/-- `handleArchive` and `handleDelete`: the answer asks for confirmation. -/
def askConfirmation (command participle argument : String) : Outcome :=
  withPaths (trimSpace argument) ("usage: " ++ command ++ " <path>") fun paths =>
    ([], { success := true
           message := "Confirm " ++ participle ++ " " ++
             countMessage paths "document" " documents"
           data := {
             documentPath := trimSpace argument
             requiresConfirmation := true
             confirmationCommand := command ++ " " ++ trimSpace argument ++ " --force" } })

def handleArchive (argument : String) : Outcome :=
  askConfirmation "archive" "archiving" argument

def handleArchiveForce (argument : String) : Outcome :=
  withPaths (trimSpace argument) "usage: archive <path> --force" fun paths =>
    eachPath services .softDelete
      (fun path e => "failed to archive document " ++ path ++ ": " ++ e)
      { success := true
        message := countMessage paths "document archived" " documents archived" } [] paths

/-- The paths to restore: those of the argument, or the open document. -/
def unarchivePaths (argument : String) : Option (List String) :=
  if trimSpace argument = "" then
    if currentPath = "" then none else some [currentPath]
  else some (splitPaths (trimSpace argument))

def handleUnarchive (argument : String) : Outcome :=
  match unarchivePaths currentPath argument with
  | none => ([], { success := false, message := "no document open - use in document editor" })
  | some [] => ([], { success := false, message := "no valid paths provided" })
  | some paths =>
    eachPath services .restore
      (fun path e => "failed to unarchive document " ++ path ++ ": " ++ e)
      { success := true
        message := countMessage paths "document unarchived" " documents unarchived" }
      [] paths

def handleDelete (argument : String) : Outcome := askConfirmation "delete" "deleting" argument

def handleDeleteForce (argument : String) : Outcome :=
  withPaths (trimSpace argument) "usage: delete <path> --force" fun paths =>
    eachPath services .softDelete
      (fun path e => "failed to delete document " ++ path ++ ": " ++ e)
      { success := true
        message := countMessage paths "document deleted" " documents deleted"
        data := { flags := ["--force"] } } [] paths

/-- The deletion is permanent if `--hard` occurs anywhere in the command. -/
def handleDeleteWithFlags (argument fullCommand : String) : Outcome :=
  withPaths (trimSpace argument) "usage: delete <path> [--force] [--hard]" fun paths =>
    if contains fullCommand "--hard" then
      match paths with
      | [path] =>
        oneCall services (.hardDelete path) "failed to permanently delete document: "
          fun _ => { success := true, message := "document permanently deleted" }
      | _ =>
        oneCall services (.hardDeleteBatch paths)
          "failed to permanently delete documents: " fun _ =>
            { success := true
              message := decimal paths.length ++ " documents permanently deleted" }
    else
      match paths with
      | [path] =>
        oneCall services (.softDelete path) "failed to delete document: "
          fun _ => { success := true, message := "document deleted" }
      | _ =>
        eachPath services .softDelete
          (fun path e => "failed to delete document " ++ path ++ ": " ++ e)
          { success := true, message := decimal paths.length ++ " documents deleted" }
          [] paths

/-- `strings.Fields`. -/
def fields (s : String) : List String :=
  ((s.toList.splitOnP isSpace).filter fun part => part != []).map String.ofList

/-- The tags of an argument: between commas, or between blanks where there is no comma. -/
def splitTags (tagsInput : String) : List String :=
  if contains tagsInput "," then commaSeparated tagsInput else fields tagsInput

/-- A handler that needs the open document. -/
def withDocument (handle : Outcome) : Outcome :=
  if currentPath = "" then
    ([], { success := false, message := "no document open - use in document editor" })
  else handle

/-- A handler that needs tag names. -/
def withTags (tagsInput : String) (handle : List String → Outcome) : Outcome :=
  if splitTags tagsInput = [] then
    ([], { success := false, message := "at least one tag name is required" })
  else handle (splitTags tagsInput)

def handleTag (argument : String) : Outcome :=
  withDocument currentPath <|
    if trimSpace argument = "" then
      ([], { success := false
             message := "usage: tag <tag1> [tag2] [tag3...] or tag <tag1>, <tag2>, <tag3>..." })
    else withTags (trimSpace argument) fun tagNames =>
      oneCall services (.addTags currentPath tagNames) "failed to add tags: " fun _ =>
        { success := true, message := "tags added: " ++ join tagNames ", " }

def handleUntag (argument : String) : Outcome :=
  withDocument currentPath <|
    if trimSpace argument = "" then
      ([], { success := false
             message := "usage: untag <tag1> [tag2] ... or untag * (remove all)" })
    else if trimSpace argument = "*" ∨ trimSpace argument = "all" then
      oneCall services (.removeAllTags currentPath) "failed to remove all tags: " fun _ =>
        { success := true, message := "all tags removed" }
    else withTags (trimSpace argument) fun tagNames =>
      oneCall services (.removeTags currentPath tagNames) "failed to remove tags: " fun _ =>
        { success := true, message := "tags removed: " ++ join tagNames ", " }

def handleTags : Outcome :=
  withDocument currentPath <|
    oneCall services (.getTags currentPath) "failed to get tags: " fun tags =>
      { success := true
        message := if tags = [] then "no tags" else "tags: " ++ join tags ", " }

def handleExportMD (argument : String) : Outcome :=
  if trimSpace argument = "" then
    if currentPath = "" then
      ([], { success := false
             message := "no document open - use in document editor or specify path" })
    else ([], { success := true, message := "export document"
                data := { documentPath := currentPath } })
  else ([], { success := true, message := "export document"
              data := { documentPath := trimSpace argument } })

def handleExportPDF : Outcome :=
  withDocument currentPath
    ([], { success := true, message := "export to PDF"
           data := { documentPath := currentPath } })

/-- The handler's call; `argument` is `matches[1]`. -/
def handle (handler : DocumentHandler) (argument fullCommand : String) : Outcome :=
  match handler with
  | .new => handleNew argument
  | .doc => handleDoc argument
  | .archiveForce => handleArchiveForce services argument
  | .archive => handleArchive argument
  | .unarchive => handleUnarchive services currentPath argument
  | .deleteWithFlags => handleDeleteWithFlags services argument fullCommand
  | .deleteForce => handleDeleteForce services argument
  | .delete => handleDelete argument
  | .tag => handleTag services currentPath argument
  | .untag => handleUntag services currentPath argument
  | .tags => handleTags services currentPath
  | .exportMD => handleExportMD currentPath argument
  | .exportPDF => handleExportPDF currentPath
  | .help => ([], { success := true, message := "help" })

/-- `DocumentCommands.Parse`. -/
def runCommand (command : String) : Outcome :=
  match parse documentCommands command with
  | .empty => ([], { success := false, message := "empty command" })
  | .unknown command =>
    ([], { success := false
           message := "unknown command: " ++ command ++
             ". type 'help' for available commands." })
  | .handled handler groups fullCommand =>
    handle services currentPath handler (String.ofList (groups.get 1)) fullCommand

end

end Yanta.CommandLine
