import NodeLogs.OsError

/-!
What can be wrong with an archive, and how it is told.
-/

namespace NodeLogs.Archive

/-- The number fields of a header. -/
inductive NumberField where
  | checksum
  | size
  | mode
  | realSize
  | sparseOffset
  | sparseLength
deriving Repr, DecidableEq

inductive NumberError where
  | notText (shown : String)
  | notNumber (text : String)
deriving Repr, DecidableEq

def NumberError.message : NumberError → String
  | .notText shown => "numeric field did not have utf-8 text: " ++ shown
  | .notNumber text => "numeric field was not a number: " ++ text

inductive Error where
  | source (e : IoError)
  | cutBlock
  | cutSkip
  | number (e : NumberError) (field : NumberField) (owner : String)
  | checksum
  | sizeOverflow
  | secondLongName
  | secondRecords
  | nothingDescribed
  | sparseHeader
  | sparseAlignment
  | sparseOrder
  | sparseOverflow
  | sparseExcess
  | sparseExtension
  | sparseRealSize
  | sparseSize
deriving Repr, DecidableEq

/-- Which field was being read, and of which member; the fields of a sparse map name none. -/
def NumberField.place (owner : String) : NumberField → String
  | .checksum => " when getting cksum for " ++ owner
  | .size => " when getting size for " ++ owner
  | .mode => " when getting mode for " ++ owner
  | .realSize => " when getting real_size for " ++ owner
  | .sparseOffset => " when getting offset from sparse header"
  | .sparseLength => " when getting length from sparse header"

def Error.message : Error → String
  | .source e => e.message
  | .cutBlock => "failed to read entire block"
  | .cutSkip => "unexpected EOF during skip"
  | .number e field owner => e.message ++ field.place owner
  | .checksum => "archive header checksum mismatch"
  | .sizeOverflow => "size overflow"
  | .secondLongName => "two long name entries describing the same member"
  | .secondRecords => "two pax extensions entries describing the same member"
  | .nothingDescribed =>
    "members found describing a future member but no future member found"
  | .sparseHeader => "sparse entry type listed but not GNU header"
  | .sparseAlignment => "previous block in sparse file was not aligned to 512-byte boundary"
  | .sparseOrder => "out of order or overlapping sparse blocks"
  | .sparseOverflow => "more bytes listed in sparse file than u64 can hold"
  | .sparseExcess => "sparse file consumed more data than the header listed"
  | .sparseExtension => "failed to read extension"
  | .sparseRealSize => "mismatch in sparse file chunks and size in header"
  | .sparseSize => "mismatch in sparse file chunks and entry size in header"

end NodeLogs.Archive
