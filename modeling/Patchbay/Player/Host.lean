import Patchbay.Files.Disk
/-!
What the player asks of its surroundings.

A host reads and writes files, prints, and takes complaints.  The player is
written against any host; the one in this module keeps files and printed
text in memory.
-/

namespace Patchbay

structure Host (m : Type → Type) where
  readFile : String → m FileContent
  writeFile : String → List UInt8 → m (Except FileFault Unit)
  print : String → m Unit
  /-- Tells what went wrong, apart from what is printed. -/
  complain : String → m Unit

/-- Files and printed text. -/
structure Memory where
  disk : Disk
  printed : String

/-- The host that keeps everything in memory, except complaints. -/
def Host.memory : Host (StateM Memory) where
  readFile path s := (s.disk.read path, s)
  writeFile path content s :=
    match s.disk.write path content with
    | .ok disk => (.ok (), { s with disk })
    | .error e => (.error e, s)
  print text s := ((), { s with printed := s.printed ++ text })
  complain _ s := ((), s)

end Patchbay
