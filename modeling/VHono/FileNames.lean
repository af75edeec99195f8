import VHono.ByteScan

/-! # File names and their types

    The extension of a file name, and the content type that goes with it. -/

namespace VHono

open ByteString

/-- `os.file_name`: what follows the last slash. -/
def fileName (path : ByteString) : ByteString :=
  match lastIndexOf (byte '/') path with
  | some pos => path.drop (pos + 1)
  | none => path

/-- `os.file_ext`: the part from the last dot on, unless the dot is the first or the last
    character. -/
def fileExt (opath : ByteString) : ByteString :=
  if opath.length < 3 then []
  else
    let path := fileName opath
    match lastIndexOf (byte '.') path with
    | none => []
    | some pos => if pos + 1 ≥ path.length ∨ pos = 0 then [] else path.drop pos

/-- The content types of `infer_content_type`. -/
def contentTypes : List (String × String) :=
  [(".html", "text/html"), (".htm", "text/html"), (".css", "text/css"),
    (".js", "application/javascript"), (".json", "application/json"), (".xml", "application/xml"),
    (".txt", "text/plain"), (".png", "image/png"), (".jpg", "image/jpeg"), (".jpeg", "image/jpeg"),
    (".gif", "image/gif"), (".svg", "image/svg+xml"), (".webp", "image/webp"),
    (".ico", "image/x-icon"), (".pdf", "application/pdf"), (".zip", "application/zip"),
    (".gz", "application/gzip"), (".gzip", "application/gzip"), (".tar", "application/x-tar"),
    (".mp3", "audio/mpeg"), (".mp4", "video/mp4"), (".webm", "video/webm"), (".woff", "font/woff"),
    (".woff2", "font/woff2"), (".ttf", "font/ttf"), (".otf", "font/otf")]

def inferContentType (key : ByteString) : ByteString :=
  let ext := toLower (fileExt key)
  match contentTypes.find? (fun entry => decide (ascii entry.1 = ext)) with
  | some entry => ascii entry.2
  | none => ascii "application/octet-stream"

example : inferContentType (ascii "a/b.tar.GZ") = ascii "application/gzip" := by decide

end VHono
