import DeepFry.GraphQLExplorer.FetchChunk

namespace DeepFry.GraphQLExplorer

-- The result of a query of any document. Of a result, classify reads the error alone.
structure Response (Data : Type) where
  error : Option CombinedError
  data : Option Data

def Response.classify {Data : Type} (response : Response Data) : Option ApiError :=
  GraphQLExplorer.classify (⟨response.error,none⟩ : OperationResult Unit)

-- What the awaited promise comes to behind its throw-guard.
inductive Awaited (Data : Type) where
  | THREW
  | response (response : Response Data)

def network : ApiError := ⟨.NETWORK,none⟩

end DeepFry.GraphQLExplorer
