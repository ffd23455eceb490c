import TextTemplate.CommandLine.Run

/-! The program: it reads the files under the working directory, runs the command over them, and
writes and prints what comes of it. -/

namespace TextTemplate

partial def readEntries (entries : List IO.FS.DirEntry) : IO (List (String × FileNode)) := do
  match entries with
  | [] => pure []
  | entry :: entries => do
    let node ←
      if ← entry.path.isDir then
        pure (some (FileNode.directory (← readEntries (← entry.path.readDir).toList)))
      else
        try pure (some (FileNode.file (← IO.FS.readBinFile entry.path)))
        catch _ => pure none
    let rest ← readEntries entries
    pure ((node.map fun node => (entry.fileName, node)).toList ++ rest)

def readFiles : IO FileTree := do
  let here ← IO.currentDir
  let names := here.components.filter fun name => !name.isEmpty
  let node := FileNode.directory (← readEntries (← here.readDir).toList)
  pure ⟨FileNode.put node names (.directory []), names⟩

def writeFiles (before after : FileTree) : IO Unit := do
  let old := before.files
  for (names, content) in after.files do
    if old.lookup names != some content then
      if 1 < names.length then IO.FS.createDirAll ("/".intercalate names.dropLast)
      IO.FS.writeBinFile ("/".intercalate names) content

end TextTemplate

def main (args : List String) : IO UInt32 := do
  let files ← TextTemplate.readFiles
  let r := TextTemplate.CommandLine.run args files
  TextTemplate.writeFiles files r.files
  (← IO.getStdout).putStr r.stdout
  (← IO.getStderr).putStr r.stderr
  pure r.code.toUInt32
