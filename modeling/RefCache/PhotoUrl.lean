import RefCache.Record

/-! Where the photos of users are found: either in a public bucket, under a name made of the user
and the width of the rendition, or at fixed addresses. Nothing is checked against the store. -/

namespace RefCache

inductive PhotoStore where
  | bucket (bucket endpoint : String)
  | fixed
  deriving DecidableEq, Repr

namespace PhotoStore

def smallWidth : Nat := 50

def mediumWidth : Nat := 200

def largeWidth : Nat := 600

def defaultEndpoint : String := "storage.yandexcloud.net"

/-- The bucket named by settings; an endpoint that is unset or empty is the default one. -/
def ofSettings (bucket endpoint : Option String) : PhotoStore :=
  .bucket (bucket.getD "") ((endpoint.filter (· != "")).getD defaultEndpoint)

def bucketUrl (bucket endpoint : String) (user : Uuid) (width : Nat) : String :=
  "https://" ++ bucket ++ "." ++ endpoint ++ "/photos-" ++ user.text ++ ".w"
    ++ String.ofList (decimal width) ++ ".jpg"

def fixedUrl (user : Uuid) (size : String) : String :=
  "https://photos.test/" ++ user.text ++ "." ++ size ++ ".jpg"

def photo (store : PhotoStore) (user : Uuid) : Photo :=
  match store with
  | .bucket name host =>
    ⟨bucketUrl name host user smallWidth, bucketUrl name host user mediumWidth,
     bucketUrl name host user largeWidth⟩
  | .fixed => ⟨fixedUrl user "small", fixedUrl user "medium", fixedUrl user "large"⟩

end PhotoStore

end RefCache
