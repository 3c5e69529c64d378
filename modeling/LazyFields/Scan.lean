import LazyFields.Config.Basic
import LazyFields.Scan.Error
import LazyFields.Usage
import LazyFields.Walk

/-!
# Scans

A scan reads the sources that a walk comes across and gathers what they use.  It never fails:
what cannot be read is counted and noted, and the scan goes on.  Only a namespace that is refused
keeps it from its beginning.
-/
namespace LazyFields
open Text

structure ScanStats where
  scanned : Nat := 0
  tooLarge : Nat := 0
  unreadable : Nat := 0
  bytesRead : Nat := 0
  errors : List Text := []
deriving DecidableEq

def ScanStats.skipped (s : ScanStats) : Nat := s.tooLarge + s.unreadable

structure Scan where
  usage : Usage := {}
  stats : ScanStats := {}

namespace Scan

def suffixes (settings : ScanSettings) : List Text :=
  settings.extensions.map fun e => '.' :: e.dropWhile (· == '.')

/-- The file is a source by its name.  A name that is no text has no ending. -/
def isSource (settings : ScanSettings) (path : List UInt8) : Bool :=
  match (Path.fileName? path).bind Utf8.decode? with
  | some name => (suffixes settings).any (·.isSuffixOf name)
  | none => false

def note (s : Scan) (e : ScanError) : Scan :=
  { s with stats := { s.stats with errors := s.stats.errors ++ [coded e] } }

def noteUnreadable (s : Scan) (path : List UInt8) (cause : SystemError) : Scan :=
  let s := s.note (.unreadable (Utf8.decodeLenient path) cause)
  { s with stats := { s.stats with unreadable := s.stats.unreadable + 1 } }

/-- Adds what the bytes of a source use.  Bytes that are no text hide nothing around them. -/
def addSource (settings : ScanSettings) (rules : NamingRules) (s : Scan) (bytes : ByteArray) :
    Scan where
  usage := s.usage.add settings.qualifier rules (Utf8.decodeLenient bytes.data.toList)
  stats := { s.stats with
    scanned := s.stats.scanned + 1
    bytesRead := s.stats.bytesRead + bytes.size }

def push (settings : ScanSettings) (rules : NamingRules) (root : Text) (s : Scan) :
    Visit → Scan
  | .other _ => s
  | .fault detail => s.note (.walk root detail)
  | .file path size bytes =>
    if isSource settings path then
      match size with
      | .error cause => s.noteUnreadable path cause
      | .ok size =>
        if settings.maxFileSize.toNat < size then
          let s := s.note
            (.tooLarge (Utf8.decodeLenient path) size settings.maxFileSize.toNat)
          { s with stats := { s.stats with tooLarge := s.stats.tooLarge + 1 } }
        else
          match bytes with
          | .error cause => s.noteUnreadable path cause
          | .ok bytes => s.addSource settings rules bytes
    else s

/-- The scan of what a walk comes across, after the errors noted before it. -/
def ofVisits (settings : ScanSettings) (rules : NamingRules) (root : Text)
    (before : List ScanError) (visits : List Visit) : Scan :=
  visits.foldl (push settings rules root) (before.foldl note {})

def readExcluded (patterns : List Text) : List Ignore.Pattern × List ScanError :=
  patterns.foldl
    (fun (good, bad) t =>
      match Ignore.Pattern.readExcluded t with
      | .ok none => (good, bad)
      | .ok (some p) => (good ++ [p], bad)
      | .error e => (good, bad ++ [.ignorePattern t e.message]))
    ([], [])

/-- The patterns to exclude from a scan below a root, and the errors in them.  None is left if
together they exceed the limits. -/
def excluded (root : Text) (patterns : List Text) : List Ignore.Pattern × List ScanError :=
  let (good, bad) := readExcluded patterns
  match Ignore.Pattern.checkLimits good with
  | .ok () => (good, bad)
  | .error e => ([], bad ++ [.walk root e.message])

end Scan

/-- What is looked for, and where.  The namespace has been accepted. -/
structure Scanner where
  settings : ScanSettings
  rules : NamingRules

namespace Scanner

/-- The scanner of a configuration.  An engine for patterns may refuse the namespace, such as one
beyond its limits; `refusal?` tells why, and then there is no scanner. -/
def new (refusal? : Text → Option Text) (config : ScanConfig) (rules : NamingRules) :
    Except ScanError Scanner :=
  let settings := config.settings
  match refusal? settings.qualifier with
  | some detail => .error (.qualifier settings.qualifier detail)
  | none => .ok ⟨settings, rules⟩

def walkOptions (s : Scanner) (root : Text) : WalkOptions where
  respectIgnoreFiles := s.settings.respectIgnoreFiles
  followLinks := s.settings.followLinks
  excluded := (Scan.excluded root s.settings.extraIgnore).1

/-- The scan of what a walk comes across below a root. -/
def scanVisits (s : Scanner) (root : Text) (visits : List Visit) : Scan :=
  .ofVisits s.settings s.rules root (Scan.excluded root s.settings.extraIgnore).2 visits

def scan (s : Scanner) (tree : Tree) (root : Text) : Scan :=
  s.scanVisits root (tree.walk (s.walkOptions root) root)

end Scanner

def Scan.ofTree (tree : Tree) (root : Text) (settings : ScanSettings) (rules : NamingRules) :
    Scan :=
  Scanner.scan ⟨settings, rules⟩ tree root

end LazyFields
