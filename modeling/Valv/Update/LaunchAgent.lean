import Valv.Lib.Paths
import Valv.Lib.Text

/-!
# The launch agent

`valvd/src/launchd.rs` writes the property list that starts the daemon, and `valv-cli/src/update.rs` reads the daemon's
path out of it again, to leave a daemon alone that the app manages.

* `launchAgentPlist`, `xmlEscape`: the text that is written.
* `parseFirstProgramArgument`, `xmlUnescape`: what is read.
* `parse_launchAgentPlist`: the way back.
* `installed_daemon_is_recognised`: what the update makes of an installed daemon.
-/

namespace Valv.Update

open Valv.Paths Valv.Text

/-! ### Out -/

/-- `str::replace`. -/
def replace (value pattern replacement : String) : String :=
  String.ofList (replaceAll pattern.toList replacement.toList value.toList)

/-- `xml_escape`. -/
def xmlEscape (value : String) : String :=
  [("&", "&amp;"), ("<", "&lt;"), (">", "&gt;"), ("\"", "&quot;"), ("'", "&apos;")].foldl
    (fun v e => replace v e.1 e.2) value

/-- The property list before the path of the daemon. -/
def plistHead : String :=
  "<?xml version=\"1.0\" encoding=\"UTF-8\"?>\n" ++
  "<!DOCTYPE plist PUBLIC \"-//Apple//DTD PLIST 1.0//EN\" \"http://www.apple.com/DTDs/PropertyList-1.0.dtd\">\n" ++
  "<plist version=\"1.0\">\n<dict>\n  <key>Label</key>\n  <string>dev.drnkn.valvd</string>\n  "

/-- The property list behind its array. -/
def plistTail (stdoutPath stderrPath : String) : String :=
  "\n  <key>RunAtLoad</key>\n  <true/>\n  <key>KeepAlive</key>\n  <true/>\n  <key>StandardOutPath</key>\n  <string>" ++
    xmlEscape stdoutPath ++ "</string>\n  <key>StandardErrorPath</key>\n  <string>" ++ xmlEscape stderrPath ++
    "</string>\n</dict>\n</plist>\n"

/-- `launch_agent_plist`. -/
def launchAgentPlist (valvdPath stdoutPath stderrPath : String) : String :=
  plistHead ++ "<key>ProgramArguments</key>" ++ "\n  " ++ "<array>" ++ "\n    " ++ "<string>" ++ xmlEscape valvdPath ++
    "</string>" ++ "\n    <string>run</string>\n  " ++ "</array>" ++ plistTail stdoutPath stderrPath

/-! ### Back -/

/-- `xml_unescape`. -/
def xmlUnescape (value : String) : String :=
  [("&lt;", "<"), ("&gt;", ">"), ("&quot;", "\""), ("&apos;", "'"), ("&amp;", "&")].foldl
    (fun v e => replace v e.1 e.2) value

/-- What is between the first opening tag and the first closing tag. -/
def between (opening closing text : List Char) : Option (List Char) := do
  let start := (← find opening text) + opening.length
  let stop ← find closing text
  if stop < start then none else some ((text.take stop).drop start)

/-- `parse_first_program_argument`. -/
def parseFirstProgramArgument (plistContents : String) : Option String := do
  let keyMarker := "<key>ProgramArguments</key>".toList
  let keyIndex ← find keyMarker plistContents.toList
  let afterKey := plistContents.toList.drop (keyIndex + keyMarker.length)
  let arrayContents ← between "<array>".toList "</array>".toList afterKey
  let string ← between "<string>".toList "</string>".toList arrayContents
  some (xmlUnescape (String.ofList string))

inductive ManagedInstallGuard where
  | none
  | fullAbort
  | daemonManaged
  deriving DecidableEq, Repr

/-- `classify_managed_install`. -/
def classifyManagedInstall (appBinDir : PathBuf) (currentExeParent : Option PathBuf)
    (registeredValvdPath : Option String) : ManagedInstallGuard :=
  if currentExeParent = some appBinDir then .fullAbort
  else match registeredValvdPath with
    | some registered => if appBinDir <+: components registered then .daemonManaged else .none
    | none => .none

/-! ### The round trip -/

/-- The names of characters in XML. -/
def xmlNames : EscapeTable Char where
  marker := '&'
  self := "amp;".toList
  entries := [('<', "lt;".toList), ('>', "gt;".toList), ('\x22', "quot;".toList), ('\x27', "apos;".toList)]
  chars := by decide
  clean := by simp
  apart := by decide

theorem toList_xmlEscape (value : String) : (xmlEscape value).toList = xmlNames.escape value.toList := by
  simp only [xmlEscape, List.foldl, replace, String.toList_ofList]
  rfl

theorem xmlUnescape_ofList (l : List Char) : (xmlUnescape (String.ofList l)).toList = xmlNames.unescape l := by
  simp only [xmlUnescape, List.foldl, replace, String.toList_ofList]
  rfl

theorem xmlUnescape_xmlEscape (value : String) : xmlUnescape (String.ofList (xmlEscape value).toList) = value := by
  apply String.toList_inj.mp
  rw [xmlUnescape_ofList, toList_xmlEscape, EscapeTable.unescape_escape]

/-- Between tags that nothing before them has an occurrence of. -/
theorem between_eq {opening closing before inner after : List Char} (hbefore : Apart opening before)
    (hclosing : Apart closing (before ++ opening)) (hinner : Apart closing inner) :
    between opening closing (before ++ (opening ++ (inner ++ (closing ++ after)))) = some inner := by
  have hopen : find opening (before ++ (opening ++ (inner ++ (closing ++ after)))) = some before.length := by
    rw [find_append hbefore, find_of_prefix (List.prefix_append opening _), Option.map_some, Nat.zero_add]
  have hclose : find closing (before ++ (opening ++ (inner ++ (closing ++ after)))) =
      some (inner.length + (before ++ opening).length) := by
    rw [← List.append_assoc before opening, find_append hclosing, find_append hinner,
      find_of_prefix (List.prefix_append closing _), Option.map_some, Option.map_some, Nat.zero_add]
  rw [between, hopen, hclose]
  show (if inner.length + (before ++ opening).length < before.length + opening.length then none else
    some ((List.take (inner.length + (before ++ opening).length) _).drop (before.length + opening.length))) = some inner
  rw [if_neg (by simp), List.length_append, Nat.add_comm inner.length, ← List.length_append, ← List.append_assoc before,
    List.take_length_add_append, List.drop_left, List.take_left]

/-- The parts that are found one in the other. -/
theorem parseFirstProgramArgument_eq {plistContents : String} {head afterKey inner string : List Char}
    (htext : plistContents.toList = head ++ ("<key>ProgramArguments</key>".toList ++ afterKey))
    (hhead : Apart "<key>ProgramArguments</key>".toList head)
    (harray : between "<array>".toList "</array>".toList afterKey = some inner)
    (hstring : between "<string>".toList "</string>".toList inner = some string) :
    parseFirstProgramArgument plistContents = some (xmlUnescape (String.ofList string)) := by
  rw [parseFirstProgramArgument]
  generalize "<key>ProgramArguments</key>".toList = key at htext hhead ⊢
  generalize "<array>".toList = opening, "</array>".toList = closing at harray ⊢
  have hkey : find key plistContents.toList = some head.length := by
    rw [htext, find_append hhead, find_of_prefix (List.prefix_append _ _), Option.map_some, Nat.zero_add]
  have hafter : plistContents.toList.drop (head.length + key.length) = afterKey := by
    rw [htext, ← List.append_assoc, ← List.length_append, List.drop_left]
  simp only [hkey, hafter, harray, hstring, Option.bind_eq_bind, Option.bind_some]

/-- **What is written is read.** -/
theorem parse_launchAgentPlist (valvdPath stdoutPath stderrPath : String) :
    parseFirstProgramArgument (launchAgentPlist valvdPath stdoutPath stderrPath) = some valvdPath := by
  have hescaped : '<' ∉ (xmlEscape valvdPath).toList := by
    rw [toList_xmlEscape]
    exact xmlNames.not_mem_escape (by decide) _
  have htext : (launchAgentPlist valvdPath stdoutPath stderrPath).toList =
      plistHead.toList ++ ("<key>ProgramArguments</key>".toList ++ ("\n  ".toList ++ ("<array>".toList ++
        (("\n    ".toList ++ ("<string>".toList ++ ((xmlEscape valvdPath).toList ++ ("</string>".toList ++
          "\n    <string>run</string>\n  ".toList)))) ++ ("</array>".toList ++
            (plistTail stdoutPath stderrPath).toList))))) := by
    simp only [launchAgentPlist, String.toList_append, List.append_assoc]
  have hinner : Apart "</array>".toList ("\n    ".toList ++ ("<string>".toList ++ ((xmlEscape valvdPath).toList ++
      ("</string>".toList ++ "\n    <string>run</string>\n  ".toList)))) := by
    refine .append (apart_of_tails (by decide +kernel)) (.append (apart_of_tails (by decide +kernel)) ?_)
    refine .append (apart_of_not_mem hescaped) (.append ?_ ?_)
    · exact apart_of_tails (by decide +kernel)
    · exact apart_of_tails (by decide +kernel)
  rw [parseFirstProgramArgument_eq htext (apart_of_tails (by decide +kernel))
    (between_eq (apart_of_tails (by decide +kernel)) (apart_of_tails (by decide +kernel)) hinner)
    (between_eq (apart_of_tails (by decide +kernel)) (apart_of_tails (by decide +kernel)) (apart_of_not_mem hescaped)),
    xmlUnescape_xmlEscape]

/-- **An installed daemon is recognised.**  Whatever characters are in the paths, the update reads the path of the
daemon that was installed, and takes it for the app's exactly if it is in the app's directory. -/
theorem installed_daemon_is_recognised (appBinDir : PathBuf) (currentExeParent : Option PathBuf)
    (valvdPath stdoutPath stderrPath : String) :
    parseFirstProgramArgument (launchAgentPlist valvdPath stdoutPath stderrPath) = some valvdPath ∧
      classifyManagedInstall appBinDir currentExeParent
          (parseFirstProgramArgument (launchAgentPlist valvdPath stdoutPath stderrPath)) =
        if currentExeParent = some appBinDir then .fullAbort
        else if appBinDir <+: components valvdPath then .daemonManaged else .none := by
  have hread := parse_launchAgentPlist valvdPath stdoutPath stderrPath
  refine ⟨hread, ?_⟩
  rw [hread]
  rfl

end Valv.Update
